import BlockProgram.Proofs.Python.Syntax.Statement
import BlockProgram.Python.Recipe
import Mathlib.Data.List.ReduceOption

/-! Texts that are the lines of a forest, each with the blanks of its depth before it. Such texts are put
together from lines, from texts in a row, and from a line with an indented text after it. -/
namespace BlockProgram.Python

open Syntax

variable {cs rest : List Char} {line code code' : String} {lines : List String} {width n : Nat}
  {f g : Forest String}

private theorem lines_append (h : ∀ c ∈ cs, Inline c) :
    Text.lines (cs ++ '\n' :: rest) = cs :: Text.lines rest := by
  induction cs with
  | nil => rfl
  | cons c cs ih =>
    obtain ⟨⟨hfeed, hreturn⟩, hcs⟩ := List.forall_mem_cons.mp h
    rw [List.cons_append, Text.lines, ih hcs]
    · exact hfeed
    · exact fun _ hc _ => hreturn hc

private theorem unlines_cons : Text.unlines (line :: lines) = line ++ "\n" ++ Text.unlines lines := by
  simp [Text.unlines]

private theorem unlines_append {more : List String} :
    Text.unlines (lines ++ more) = Text.unlines lines ++ Text.unlines more := by
  simp [Text.unlines]

private theorem lines_unlines (h : ∀ line ∈ lines, ∀ c ∈ line.toList, Inline c) :
    Text.lines (Text.unlines lines).toList = lines.map String.toList := by
  induction lines with
  | nil => rfl
  | cons line lines ih =>
    obtain ⟨hline, hlines⟩ := List.forall_mem_cons.mp h
    have hsplit : (Text.unlines (line :: lines)).toList =
        line.toList ++ '\n' :: (Text.unlines lines).toList := by
      simp [unlines_cons]
    rw [hsplit, lines_append hline, ih hlines, List.map_cons]

/-- What indenting does, line by line. -/
theorem indentWith_unlines (h : ∀ line ∈ lines, ∀ c ∈ line.toList, Inline c) (indent : String) :
    Recipe.indentWith indent (Text.unlines lines) = Text.unlines (lines.map fun line =>
      if line.toList.all Text.isBlank then "" else indent ++ line) := by
  unfold Recipe.indentWith
  rw [lines_unlines h]
  unfold Text.unlines
  rw [List.map_map, List.map_map]
  congr 2
  funext line
  dsimp only [Function.comp_apply]
  split
  · rfl
  · rw [String.ofList_toList]

/-- A line that starts with no blank and does not break. -/
structure Plain (line : String) : Prop where
  leads : Opens Leads line
  inline : ∀ c ∈ line.toList, Inline c

theorem indentWith_line (h : Plain line) (indent : String) :
    Recipe.indentWith indent (line ++ "\n") = indent ++ line ++ "\n" := by
  obtain ⟨c, hc, -, -, hblank⟩ := h.leads
  have hline : line ++ "\n" = Text.unlines [line] := by simp [Text.unlines]
  have hnot : line.toList.all Text.isBlank = false :=
    List.all_eq_false.mpr ⟨c, List.mem_of_head? hc, by simp [hblank]⟩
  rw [hline, indentWith_unlines (by simpa using h.inline)]
  simp only [List.map_cons, List.map_nil, hnot, Bool.false_eq_true, if_false]
  simp [Text.unlines]

theorem Syntax.Line.plain {h : Head} (hl : Line h line) : Plain line := ⟨hl.leads, hl.inline⟩

def blanks (n : Nat) : String := String.ofList (List.replicate n ' ')

/-- A line after the blanks of its depth, or an empty line. -/
def rowText (width : Nat) : Option (Nat × String) → String
  | none => ""
  | some row => blanks (row.1 * width) ++ row.2

private theorem toList_rowText {row : Nat × String} : (rowText width (some row)).toList =
    List.replicate (row.1 * width) ' ' ++ row.2.toList := by
  rw [rowText, blanks, String.toList_append, String.toList_ofList]

private theorem blanks_append {row : Nat × String} :
    blanks width ++ rowText width (some row) = rowText width (some (row.1 + 1, row.2)) := by
  refine String.toList_inj.mp ?_
  rw [String.toList_append, toList_rowText, toList_rowText, blanks, String.toList_ofList,
    ← List.append_assoc, List.replicate_append_replicate, Nat.succ_mul, Nat.add_comm]

section plain

variable {row : Nat × String} (h : Plain row.2)
include h

private theorem exists_toList : ∃ c cs, row.2.toList = c :: cs ∧ Text.isBlank c = false := by
  obtain ⟨c, hc, -, -, hblank⟩ := h.leads
  obtain ⟨cs, hcs⟩ := List.head?_eq_some_iff.mp hc
  exact ⟨c, cs, hcs, hblank⟩

private theorem inline_rowText : ∀ c ∈ (rowText width (some row)).toList, Inline c := by
  rw [toList_rowText]
  refine List.forall_mem_append.mpr ⟨fun c hc => ?_, h.inline⟩
  rw [(List.mem_replicate.mp hc).2]
  decide

private theorem all_isBlank_rowText :
    (rowText width (some row)).toList.all Text.isBlank = false := by
  obtain ⟨c, cs, hcs, hblank⟩ := exists_toList h
  rw [toList_rowText, hcs]
  simp [hblank]

private theorem lineRow?_rowText :
    lineRow? (rowText width (some row)).toList = some (row.1 * width, row.2) := by
  obtain ⟨c, cs, hcs, hblank⟩ := exists_toList h
  have hne : c ≠ ' ' := by
    rintro rfl
    cases hblank
  have hspaces : ∀ d ∈ List.replicate (row.1 * width) ' ', decide (d = ' ') := fun d hd =>
    decide_eq_true (List.mem_replicate.mp hd).2
  have hrow : String.ofList (c :: cs) = row.2 := by rw [← hcs, String.ofList_toList]
  unfold lineRow?
  rw [toList_rowText, hcs, List.takeWhile_append_of_pos hspaces, List.dropWhile_append_of_pos hspaces]
  simp [hne, hrow]

end plain

section rows

variable {rows : List (Option (Nat × String))} (h : ∀ row, some row ∈ rows → Plain row.2)
include h

private theorem inline_rows : ∀ line ∈ rows.map (rowText width), ∀ c ∈ line.toList, Inline c := by
  intro line hline
  obtain ⟨row?, hrow, rfl⟩ := List.mem_map.mp hline
  cases row? with
  | none => nofun
  | some row => exact inline_rowText (h row hrow)

/-- Indenting puts every line one level deeper. -/
theorem indentWith_rows :
    Recipe.indentWith (blanks width) (Text.unlines (rows.map (rowText width))) =
      Text.unlines ((rows.map (Option.map fun row => (row.1 + 1, row.2))).map (rowText width)) := by
  rw [indentWith_unlines (inline_rows h), List.map_map, List.map_map]
  refine congrArg Text.unlines (List.map_congr_left fun row? hrow => ?_)
  cases row? with
  | none => rfl
  | some row =>
    dsimp only [Function.comp_apply, Option.map_some]
    rw [all_isBlank_rowText (h row hrow), if_neg Bool.false_ne_true, blanks_append]

private theorem lineRows_rows : lineRows (Text.unlines (rows.map (rowText width))) =
    rows.reduceOption.map fun row => (row.1 * width, row.2) := by
  unfold lineRows
  induction rows with
  | nil => rfl
  | cons row? rows ih =>
    have hbreak : ∀ c ∈ (rowText width row?).toList, (c = '\n' || c = '\r') = false := by
      intro c hc
      have hc := inline_rows h _ List.mem_cons_self c hc
      simp [hc.1, hc.2]
    have hsplit : (Text.unlines ((row? :: rows).map (rowText width))).toList =
        (rowText width row?).toList ++ '\n' :: (Text.unlines (rows.map (rowText width))).toList := by
      simp [unlines_cons]
    rw [hsplit, List.splitOnP_append_cons_of_forall_mem hbreak _ rfl, List.filterMap_cons,
      ih fun row hrow => h row (List.mem_cons_of_mem _ hrow)]
    cases row? with
    | none => rfl
    | some row => 
      rw [lineRow?_rowText (h row List.mem_cons_self)]
      rfl

end rows

/-- The text is the lines of the forest, with empty lines among them. -/
structure Prints (width : Nat) (code : String) (f : Forest String) : Prop where
  plain : ∀ row ∈ f.rows 0, Plain row.2
  rows : ∃ rows : List (Option (Nat × String)),
    code = Text.unlines (rows.map (rowText width)) ∧ rows.reduceOption = f.rows 0

namespace Prints

theorem nil : Prints width "" .nil := ⟨by simp [Forest.rows], [], rfl, rfl⟩

theorem leaf (h : Plain line) : Prints width (line ++ "\n") (.leaf line) := by
  refine ⟨?_, [some (0, line)], ?_, rfl⟩
  · simpa [Forest.leaf, Forest.rows] using h
  · simp [Text.unlines, rowText, blanks]

/-- Texts in a row are the lines of the one and then of the other. -/
theorem append (h : Prints width code f) (h' : Prints width code' g) :
    Prints width (code ++ code') (f.append g) := by
  obtain ⟨hplain, rows, rfl, hrows⟩ := h
  obtain ⟨hplain', rows', rfl, hrows'⟩ := h'
  refine ⟨?_, rows ++ rows', ?_, ?_⟩
  · rw [Forest.rows_append]
    exact List.forall_mem_append.mpr ⟨hplain, hplain'⟩
  · rw [List.map_append, unlines_append]
  · rw [List.reduceOption_append, hrows, hrows', Forest.rows_append]

theorem emptyLine (h : Prints width code f) : Prints width ("\n" ++ code) f := by
  obtain ⟨hplain, rows, rfl, hrows⟩ := h
  exact ⟨hplain, none :: rows, by simp [unlines_cons, rowText], hrows⟩

private theorem plain_of_mem {rows : List (Option (Nat × String))}
    (hplain : ∀ row ∈ f.rows 0, Plain row.2) (hrows : rows.reduceOption = f.rows 0)
    (row : Nat × String) (hrow : some row ∈ rows) : Plain row.2 :=
  hplain row (hrows ▸ List.reduceOption_mem_iff.mpr hrow)

/-- A line with a suite. -/
theorem header (hl : Plain line) (h : Prints width code f) : Prints width
    (line ++ "\n" ++ Recipe.indentWith (blanks width) code) (.cons line f .nil) := by
  obtain ⟨hplain, rows, rfl, hrows⟩ := h
  refine ⟨?_, some (0, line) :: rows.map (Option.map fun row => (row.1 + 1, row.2)), ?_, ?_⟩
  · simp only [Forest.rows, Forest.rows_succ, List.append_nil, List.forall_mem_cons, List.forall_mem_map]
    exact ⟨hl, hplain⟩
  · rw [indentWith_rows (plain_of_mem hplain hrows), List.map_cons, unlines_cons]
    simp [rowText, blanks]
  · simp [Forest.rows, Forest.rows_succ, hrows, List.reduceOption_map]

/-- The lines that are not blank are those of the forest. -/
theorem lineRows_eq (h : Prints width code f) :
    lineRows code = (f.rows 0).map fun row => (row.1 * width, row.2) := by
  obtain ⟨hplain, rows, rfl, hrows⟩ := h
  rw [lineRows_rows (plain_of_mem hplain hrows), hrows]

/-- Indented lines are a text with something in it. -/
theorem isEmpty_indentWith (h : Prints width code f) (hne : f ≠ .nil) :
    (Recipe.indentWith (blanks width) code).isEmpty = false := by
  refine Bool.eq_false_iff.mpr fun hempty => hne ?_
  have hleaf : Prints width ("pass" ++ "\n") (.leaf "pass") := .leaf line_pass.plain
  have hheader := (h.header line_pass.plain).lineRows_eq
  rw [String.isEmpty_iff.mp hempty, String.append_empty, hleaf.lineRows_eq] at hheader
  cases f with
  | nil => rfl
  | cons => simp [Forest.leaf, Forest.rows] at hheader

/-- A printed forest is read back. -/
theorem read (h : Prints width code f) (ht : f.Tidy opensSuite) (hw : 0 < width) :
    readProgram code = some f := by
  have hread : Forest.read opensSuite (0 * width)
      ((f.rows 0).map fun row => (row.1 * width, row.2)) = some f := Forest.read_rows ht hw
  rw [Nat.zero_mul, ← h.lineRows_eq] at hread
  exact hread

end Prints

end BlockProgram.Python
