import BlockProgram.Proofs.Python.Layout
import BlockProgram.Proofs.Python.Outline
import BlockProgram.Proofs.Python.Value

/-! The texts of the rules for statements are the lines that their blocks stand for, as long as the texts of
the blocks in the sockets are. -/
namespace BlockProgram.Python

open Syntax Workspace

/-- The text is the lines of the statements, each saying what it should. -/
def Written (width : Nat) (code : String) (g : Forest Statement) : Prop :=
  ∃ f : Forest (Statement × String), f.map Prod.fst = g ∧ Prints width code (f.map Prod.snd) ∧
    (∀ row ∈ f.rows 0, Line row.2.1.head row.2.2) ∧ f.Tidy fun line => line.1.head.opens

variable {width : Nat} {code code' text line default x : String} {f g : Forest Statement} {s : Statement}
  {w : Workspace} {id c : BlockId} {b : Block} {trees : String → Expr} {ids : List BlockId} {e : Expr}
  {socket : String} {head : Head} {n start count : Nat}

namespace Written

theorem nil : Written width "" .nil := ⟨.nil, rfl, .nil, by simp [Forest.rows], .nil⟩

theorem leaf (hl : Line s.head line) (ho : s.head.opens = false) :
    Written width (line ++ "\n") (.leaf s) := by
  refine ⟨.leaf (s, line), rfl, .leaf hl.plain, ?_, .cons (by simp [ho]) .nil .nil⟩
  simpa [Forest.leaf, Forest.rows] using hl

theorem append (h : Written width code f) (h' : Written width code' g) :
    Written width (code ++ code') (f.append g) := by
  obtain ⟨f, rfl, hprints, hlines, htidy⟩ := h
  obtain ⟨g, rfl, hprints', hlines', htidy'⟩ := h'
  refine ⟨f.append g, Forest.map_append, ?_, ?_, htidy.append htidy'⟩
  · rw [Forest.map_append]
    exact hprints.append hprints'
  · rw [Forest.rows_append]
    exact List.forall_mem_append.mpr ⟨hlines, hlines'⟩

theorem emptyLine (h : Written width code f) : Written width ("\n" ++ code) f := by
  obtain ⟨f, hf, hprints, hlines⟩ := h
  exact ⟨f, hf, hprints.emptyLine, hlines⟩

/-- A line with a suite. -/
theorem header (hl : Line s.head line) (ho : s.head.opens) (h : Written width code f) (hne : f ≠ .nil) :
    Written width (line ++ "\n" ++ Recipe.indentWith (blanks width) code) (.cons s f .nil) := by
  obtain ⟨f, rfl, hprints, hlines, htidy⟩ := h
  refine ⟨.cons (s, line) f .nil, rfl, hprints.header hl.plain, ?_, .cons ?_ htidy .nil⟩
  · simp only [Forest.rows, Forest.rows_succ, List.append_nil, List.forall_mem_cons,
      List.forall_mem_map]
    exact ⟨hl, hlines⟩
  · refine iff_of_true ho ?_
    rintro rfl
    exact hne rfl

theorem isEmpty_indentWith (h : Written width code f) (hne : f ≠ .nil) :
    (Recipe.indentWith (blanks width) code).isEmpty = false := by
  obtain ⟨f, rfl, hprints, -⟩ := h
  refine hprints.isEmpty_indentWith fun hnil => hne ?_
  cases f with
  | nil => rfl
  | cons => cases hnil

end Written

/-- Every block gives a text that says what the block stands for: an expression its tree, a statement its
lines. Numbers without a sign and without places are digits. -/
def ownText (w : Workspace) (width : Nat) : Expectation where
  answers := ⟨fun c f => (ownTree w).answers.fragment c f ∧ match f with
      | .expression code _ => ∀ n, Denotes w (identifierIn w) c (.integer n) → Digits code
      | .statement code => ∃ b trees g, w.find? c = some b ∧ Trees w b trees ∧
          Outlines w b trees g ∧ Written width code g,
    (ownTree w).answers.identifier, Proper⟩
  names names := Continues w names ∧ names.Sane

/-- The texts of a chain are the lines of the statements that its blocks outline. -/
theorem exists_chain (h : Statements (ownText w width).answers ids code) :
    ∃ g, ChainOutlines w ids g ∧ Written width code g := by
  induction h with
  | nil => exact ⟨.nil, .nil, .nil⟩
  | cons h _ ih =>
    obtain ⟨⟨hkind, -⟩, b, trees, f, hb, htrees, houtlines, hwritten⟩ := h
    obtain ⟨g, hchain, hmore⟩ := ih
    exact ⟨f.append g, .cons hb (hkind b hb).symm htrees houtlines hchain, hwritten.append hmore⟩

/-- A line with what a statement socket gives is the line with its suite. -/
theorem exists_suite (hchains : ∀ socket t, b.target? socket = some t → w.chain t ≠ [])
    (h : BodyText ⟨w, blanks width⟩ (ownText w width).answers b socket text)
    (hl : Line head line) (ho : head.opens) : ∃ g, SuiteOutlines w b socket g ∧
      Written width (line ++ "\n" ++ text) (.cons (.own b head) g .nil) := by
  unfold BodyText at h
  cases ht : b.target? socket with
  | none =>
    rw [ht] at h
    have hpass : Written width ("pass" ++ "\n") (.leaf (.fill b .pass)) := .leaf line_pass rfl
    have htext : text = Recipe.indentWith (blanks width) ("pass" ++ "\n") := by
      rw [indentWith_line line_pass.plain, String.append_assoc]
      exact h
    exact ⟨_, .pass ht, htext ▸ hpass.header hl ho nofun⟩
  | some t =>
    rw [ht] at h
    obtain ⟨code, hstatements, htext⟩ := h
    obtain ⟨g, hchain, hwritten⟩ := exists_chain hstatements
    have hne : g ≠ .nil := hchain.ne_nil (hchains socket t ht)
    rw [hwritten.isEmpty_indentWith hne] at htext
    exact ⟨g, .chain ht hchain, htext ▸ hwritten.header hl ho hne⟩

/-- Digits stand as they are, all else is made an integer. -/
theorem phrase_turns (h : Phrase .disjunction e x) (hdigits : ∀ n, e = .integer n → Digits x) :
    Phrase .disjunction (turnsTree e) (Rules.turns x) := by
  have hiff : (!x.isEmpty && x.toList.all Char.isDigit) = true ↔ Digits x := by simp [Digits]
  unfold Rules.turns
  split
  · rename_i hx
    have hx := hiff.mp hx
    obtain ⟨n, rfl⟩ : ∃ n, e = .integer n := by
      obtain ⟨-, ts, hreads, hd⟩ := h
      obtain rfl := tokens_digits hx.2 hx.1 hreads.tokens_eq
      exact ⟨_, hd.unique ((Derives.integer _).loosenTo (Nat.zero_le _))⟩
    exact h
  · rename_i hx
    have htree : turnsTree e = .call (.name "int") [e] := by
      cases e with
      | integer n => exact (hx (hiff.mpr (hdigits n rfl))).elim
      | _ => rfl
    have hcode : "int(" = "int" ++ "(" := by decide
    have hint : Proper "int" := by decide
    rw [htree, hcode]
    exact ((subject_name hint).callOne h).phrase.loosen (by decide)

private theorem line_guard : Line (.condition "if" guardTree) "if __name__ == '__main__':" := by
  have hname : Proper "__name__" := by decide
  have hleft : Phrase .sum (.name "__name__") "__name__" := (subject_name hname).phrase.loosen (by decide)
  have hright : Phrase .sum (.text "__main__") "'__main__'" :=
    (subject_text "__main__").phrase.loosen (by decide)
  have hguard : Phrase .disjunction guardTree "__name__ == '__main__'" :=
    (phrase_compare hleft hright (by decide)).loosen (by decide)
  exact line_condition (by decide) hguard

namespace Answered

variable (h : Answered (ownText w width).answers (identifierIn w) b trees)
include h

private theorem assign {user name : String} (htype : b.type = "variables_set")
    (hf : b.field? "VAR" = some (.text user)) (hname : (ownText w width).answers.identifier user name)
    (hx : Operand (ownText w width).answers b "VALUE" .whole "None" x) :
    ∃ g, Outlines w b trees g ∧ Written width (name ++ " = " ++ x ++ "\n") g := by
  obtain ⟨rfl, hproper⟩ := h.identifier (by simp [variableTypes, htype]) user hf name hname
  obtain rfl := word_of_text hf
  have hnone : Phrase .disjunction .nothing "None" := subject_nothing.phrase.loosen (by decide)
  have hx := h.phrase_operand (not_unused htype (by decide)) hx hnone
  exact ⟨_, .assign htype, .leaf (line_assignment hproper hx) rfl⟩

private theorem print (htype : b.type = "text_print")
    (hx : Operand (ownText w width).answers b "TEXT" .whole "''" x) :
    ∃ g, Outlines w b trees g ∧ Written width ("print(" ++ x ++ ")\n") g := by
  have hempty : Phrase .disjunction (.text "") "''" := (subject_text "").phrase.loosen (by decide)
  have hx := h.phrase_operand (not_unused htype (by decide)) hx hempty
  have hprint : Proper "print" := by decide
  have hcall := line_expression (((subject_name hprint).callOne hx).phrase.loosen (by decide))
  have hcode : "print(" ++ x ++ ")\n" = "print" ++ "(" ++ x ++ ")" ++ "\n" := by
    simp [← String.toList_inj]
  rw [hcode]
  exact ⟨_, .print htype, .leaf hcall rfl⟩

private theorem phrase_value {y : String} (hu : ¬ Unused b socket)
    (hx : Filled (ownText w width).answers b socket .whole (some y)) :
    ∃ c, used? b socket = some c ∧ Phrase .disjunction (trees socket) y := by
  obtain ⟨c, hc⟩ := Option.isSome_iff_exists.mp (isSome_of_filled hu hx).symm
  refine ⟨c, hc, ?_⟩
  rw [used?_eq hu] at hc
  unfold Filled at hx
  rw [hc] at hx
  obtain ⟨code, level, hf, hy⟩ := hx
  obtain rfl := Option.some.inj hy
  exact (h.fragment socket c ((used?_eq hu).trans hc) code level hf).placed .whole

private theorem returned (htype : b.type = "controls_return")
    (hx : Filled (ownText w width).answers b "VALUE" .whole (some x)) :
    ∃ g, Outlines w b trees g ∧ Written width ("return " ++ x ++ "\n") g := by
  obtain ⟨c, hc, hphrase⟩ := h.phrase_value (not_unused htype (by decide)) hx
  exact ⟨_, .result htype hc, .leaf (line_result hphrase) rfl⟩

private theorem removed {place list : String} {index : Option String} (htype : b.type = "lists_get_index")
    (hm : b.mutation = .variant "REMOVE") (hf : b.field? "WHERE" = some (.choice place))
    (hl : Operand (ownText w width).answers b "VALUE" .call "[]" list)
    (hi : ElementIndex (ownText w width).answers b place index) :
    ∃ g, Outlines w b trees g ∧ Written width (list ++ ".pop(" ++ index.getD "" ++ ")\n") g := by
  have houtlines : Outlines w b trees _ := .removed htype hm
  have hindex := h.rel_index hf hi
  have hpop : Proper "pop" := by decide
  have hfunction := (h.subject_value htype hl).member hpop
  have hcode : list ++ ".pop(" ++ index.getD "" ++ ")\n" =
      list ++ "." ++ "pop" ++ "(" ++ index.getD "" ++ ")" ++ "\n" := by
    simp [← String.toList_inj]
  rw [word_of_choice hf] at houtlines
  rw [hcode]
  refine ⟨_, houtlines, .leaf (line_expression (Subject.phrase ?_ |>.loosen (by decide))) rfl⟩
  generalize indexTree? place _ = index? at hindex
  cases hindex with
  | some hphrase => exact hfunction.callOne hphrase
  | none => exact hfunction.call .nil

variable (hchains : ∀ socket t, b.target? socket = some t → w.chain t ≠ [])
include hchains

private theorem repeatLoop {counter body : String} (htype : b.type = "controls_repeat_ext")
    (hx : Operand (ownText w width).answers b "TIMES" .whole "0" x) (hcounter : Proper counter)
    (hbody : BodyText ⟨w, blanks width⟩ (ownText w width).answers b "DO" body)
    (htrees : Trees w b trees) :
    ∃ g, Outlines w b trees g ∧
      Written width ("for " ++ counter ++ " in range(" ++ Rules.turns x ++ "):\n" ++ body) g := by
  have hu : ¬ Unused b "TIMES" := not_unused htype (by decide)
  let P (e : Expr) (code : String) : Prop :=
    Phrase .disjunction e code ∧ ∀ n, e = .integer n → Digits code
  have hzero : P (.integer 0) "0" := ⟨(phrase_integer 0).loosen (by decide), fun n _ => digits_toString 0⟩
  obtain ⟨hphrase, hdigits⟩ := cases_operand (P := P) hu hx hzero fun c code level hc hf => by
    refine ⟨(h.fragment _ c hc code level hf).placed .whole, fun n hn => ?_⟩
    rw [parenthesize_of_le (by cases level <;> decide)]
    exact hf.2 n (hn ▸ htrees _ c hc)
  have hrange : Proper "range" := by decide
  have hcall := (subject_name hrange).callOne (phrase_turns hphrase hdigits)
  have hline := line_forLoop hcounter (hcall.phrase.loosen (by decide))
  have hcode : "for " ++ counter ++ " in range(" ++ Rules.turns x ++ "):\n" ++ body =
      "for " ++ counter ++ " in " ++ ("range" ++ "(" ++ Rules.turns x ++ ")") ++ ":" ++ "\n" ++ body := by
    simp [← String.toList_inj]
  obtain ⟨suite, hsuite, hwritten⟩ := exists_suite hchains hbody hline rfl
  rw [hcode]
  exact ⟨_, .repeatLoop htype hcounter hsuite, hwritten⟩

private theorem whileLoop {body : String} (htype : b.type = "controls_whileUntil")
    (hf : b.field? "MODE" = some (.choice "WHILE"))
    (hx : Operand (ownText w width).answers b "BOOL" .whole "False" x)
    (hbody : BodyText ⟨w, blanks width⟩ (ownText w width).answers b "DO" body) :
    ∃ g, Outlines w b trees g ∧ Written width ("while " ++ x ++ ":\n" ++ body) g := by
  have hfalse : Phrase .disjunction (.truth false) "False" :=
    (subject_truth false).phrase.loosen (by decide)
  have hx := h.phrase_operand (not_unused htype (by decide)) hx hfalse
  have hline : Line (.condition "while" _) ("while" ++ " " ++ x ++ ":") :=
    line_condition (by decide) hx
  have hcode : "while " ++ x ++ ":\n" ++ body = "while" ++ " " ++ x ++ ":" ++ "\n" ++ body := by
    simp [← String.toList_inj]
  obtain ⟨suite, hsuite, hwritten⟩ := exists_suite hchains hbody hline rfl
  rw [hcode]
  exact ⟨_, .whileLoop htype (word_of_choice hf) hsuite, hwritten⟩

private theorem untilLoop {body : String} (htype : b.type = "controls_whileUntil")
    (hf : b.field? "MODE" = some (.choice "UNTIL"))
    (hx : Operand (ownText w width).answers b "BOOL" .negation "False" x)
    (hbody : BodyText ⟨w, blanks width⟩ (ownText w width).answers b "DO" body) :
    ∃ g, Outlines w b trees g ∧ Written width ("while " ++ ("not " ++ x) ++ ":\n" ++ body) g := by
  have hfalse : Phrase .inversion (.truth false) "False" :=
    (subject_truth false).phrase.loosen (by decide)
  have hx := h.phrase_operand (not_unused htype (by decide)) hx hfalse
  have hline : Line (.condition "while" _) ("while" ++ " " ++ ("not " ++ x) ++ ":") :=
    line_condition (by decide) ((phrase_not hx).loosen (by decide))
  have hcode : "while " ++ ("not " ++ x) ++ ":\n" ++ body =
      "while" ++ " " ++ ("not " ++ x) ++ ":" ++ "\n" ++ body := by
    simp [← String.toList_inj]
  obtain ⟨suite, hsuite, hwritten⟩ := exists_suite hchains hbody hline rfl
  rw [hcode]
  exact ⟨_, .untilLoop htype (word_of_choice hf) hsuite, hwritten⟩

private theorem eachLoop {user name body : String} (htype : b.type = "controls_for_each")
    (hf : b.field? "VAR" = some (.text user)) (hname : (ownText w width).answers.identifier user name)
    (hx : Operand (ownText w width).answers b "LIST" .comparison "[]" x)
    (hbody : BodyText ⟨w, blanks width⟩ (ownText w width).answers b "DO" body) :
    ∃ g, Outlines w b trees g ∧ Written width ("for " ++ name ++ " in " ++ x ++ ":\n" ++ body) g := by
  obtain ⟨rfl, hproper⟩ := h.identifier (by simp [variableTypes, htype]) user hf name hname
  obtain rfl := word_of_text hf
  have hempty : Phrase .comparison (.list []) "[]" := (subject_list .nil).phrase.loosen (by decide)
  have hx := h.phrase_operand (not_unused htype (by decide)) hx hempty
  have hline := line_forLoop hproper (hx.loosen (by decide))
  have hcode (pre : String) : pre ++ ":\n" ++ body = pre ++ ":" ++ "\n" ++ body := by
    simp [← String.toList_inj]
  obtain ⟨suite, hsuite, hwritten⟩ := exists_suite hchains hbody hline rfl
  rw [hcode]
  exact ⟨_, .eachLoop htype hsuite, hwritten⟩

private theorem branches (htype : b.type = "controls_if")
    (hbranches : BranchText ⟨w, blanks width⟩ (ownText w width).answers b start count code) :
    ∃ g, BranchOutlines w b trees start count g ∧ Written width code g := by
  induction hbranches with
  | nil => exact ⟨.nil, .nil, .nil⟩
  | @cons start count x body more hx hbody _ ih =>
    have hfalse : Phrase .disjunction (.truth false) "False" :=
      (subject_truth false).phrase.loosen (by decide)
    have hx := h.phrase_operand (not_unused htype (by decide)) hx hfalse
    have hkeyword : (if start = 0 then "if" else "elif") ∈ conditionals := by split <;> decide
    have hline := line_condition hkeyword hx
    have hcode : (if start = 0 then "if " else "elif ") ++ x ++ ":\n" ++ body =
        (if start = 0 then "if" else "elif") ++ " " ++ x ++ ":" ++ "\n" ++ body := by
      split <;> simp [← String.toList_inj]
    obtain ⟨suite, hsuite, hwritten⟩ := exists_suite hchains hbody hline rfl
    obtain ⟨g, hmore, hrest⟩ := ih
    rw [hcode]
    exact ⟨_, .cons hsuite hmore, hwritten.append hrest⟩

private theorem branchElse {body : String} (htype : b.type = "controls_if")
    (hm : b.mutation = .branches n true)
    (hbranches : BranchText ⟨w, blanks width⟩ (ownText w width).answers b 0 (n + 1) code)
    (hbody : BodyText ⟨w, blanks width⟩ (ownText w width).answers b "ELSE" body) :
    ∃ g, Outlines w b trees g ∧ Written width (code ++ "else:\n" ++ body) g := by
  obtain ⟨g, houtlines, hwritten⟩ := h.branches hchains htype hbranches
  obtain ⟨suite, hsuite, helse⟩ := exists_suite hchains hbody line_elseBranch rfl
  have hcode : code ++ "else:\n" ++ body = code ++ ("else:" ++ "\n" ++ body) := by
    simp [← String.toList_inj]
  rw [hcode]
  exact ⟨_, .branchElse htype hm houtlines hsuite, hwritten.append helse⟩

omit h in
private theorem entryPoint {name body : String} (htype : b.type = "program_main") (hname : Proper name)
    (hbody : BodyText ⟨w, blanks width⟩ (ownText w width).answers b "DO" body) :
    ∃ g, Outlines w b trees g ∧ Written width ("def " ++ name ++ "():\n" ++ body ++
      "\n\nif __name__ == '__main__':\n" ++ blanks width ++ name ++ "()\n") g := by
  obtain ⟨suite, hsuite, hwritten⟩ := exists_suite hchains hbody (line_definition hname) rfl
  have hcall : Line (.expression (.call (.name name) [])) (name ++ "(" ++ "" ++ ")") :=
    line_expression (((subject_name hname).call .nil).phrase.loosen (by decide))
  have hleaf : Written width (name ++ "(" ++ "" ++ ")" ++ "\n")
      (.leaf (.fill b (.expression (.call (.name name) [])))) := .leaf hcall rfl
  have hguard : Written width ("if __name__ == '__main__':" ++ "\n" ++
      (blanks width ++ (name ++ "(" ++ "" ++ ")") ++ "\n")) (.cons (.own b (.condition "if" guardTree))
        (.leaf (.fill b (.expression (.call (.name name) [])))) .nil) :=
    indentWith_line hcall.plain (blanks width) ▸ hleaf.header line_guard rfl nofun
  have hcode : "def " ++ name ++ "():\n" ++ body ++ "\n\nif __name__ == '__main__':\n" ++
      blanks width ++ name ++ "()\n" = "def " ++ name ++ "():" ++ "\n" ++ body ++
        ("\n" ++ ("\n" ++ ("if __name__ == '__main__':" ++ "\n" ++
          (blanks width ++ (name ++ "(" ++ "" ++ ")") ++ "\n")))) := by
    simp [← String.toList_inj]
  rw [hcode]
  exact ⟨_, .entryPoint htype hname hsuite, hwritten.append hguard.emptyLine.emptyLine⟩

/-- Whatever the type of the block, the text of its rule is its lines. -/
theorem written (htrees : Trees w b trees)
    (ht : StatementText ⟨w, blanks width⟩ (ownText w width).answers b code) :
    ∃ g, Outlines w b trees g ∧ Written width code g := by
  cases ht with
  | assign htype hf hname hx => exact h.assign htype hf hname hx
  | print htype hx => exact h.print htype hx
  | repeatLoop htype hx hcounter hbody =>
    exact h.repeatLoop hchains htype hx hcounter hbody htrees
  | whileLoop htype hf hx hbody => exact h.whileLoop hchains htype hf hx hbody
  | untilLoop htype hf hx hbody => exact h.untilLoop hchains htype hf hx hbody
  | eachLoop htype hf hname hx hbody => exact h.eachLoop hchains htype hf hname hx hbody
  | branch htype hm hbranches =>
    obtain ⟨g, houtlines, hwritten⟩ := h.branches hchains htype hbranches
    exact ⟨g, .branch htype hm houtlines, hwritten⟩
  | branchElse htype hm hbranches hbody => exact h.branchElse hchains htype hm hbranches hbody
  | noResult htype hx =>
    have hnone : used? b "VALUE" = none := by
      simpa using isSome_of_filled (not_unused htype (by decide)) hx
    have hcode : "return\n" = "return" ++ "\n" := by decide
    rw [hcode]
    exact ⟨_, .noResult htype hnone, .leaf line_noResult rfl⟩
  | result htype hx => exact h.returned htype hx
  | removed htype hm hf hl hi => exact h.removed htype hm hf hl hi
  | entryPoint htype hname hbody => exact entryPoint hchains htype hname hbody

end Answered

end BlockProgram.Python
