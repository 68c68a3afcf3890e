import Mathlib.Data.List.Basic

/-! Programs read by their indentation. A line that ends in a colon owns the lines after it that are further
in; the lines that one line owns have to start in one column, and no other line may be followed by lines
that are further in. Blank lines do not count. -/
namespace BlockProgram.Python.Syntax

/-- Lines in a row, each with the lines that it owns. -/
inductive Forest (α : Type) where
  | nil
  | cons (line : α) (suite rest : Forest α)
  deriving DecidableEq, Repr

namespace Forest

variable {α β : Type}

def leaf (line : α) : Forest α := cons line nil nil

def append : Forest α → Forest α → Forest α
  | nil, g => g
  | cons line suite rest, g => cons line suite (append rest g)

def map (φ : α → β) : Forest α → Forest β
  | nil => nil
  | cons line suite rest => cons (φ line) (map φ suite) (map φ rest)

/-- The lines in their order, each with its depth: the number of lines that own it and of those around
the whole forest. -/
def rows : Nat → Forest α → List (Nat × α)
  | _, nil => []
  | depth, cons line suite rest => (depth, line) :: (rows (depth + 1) suite ++ rows depth rest)

/-- Exactly the lines that open a suite own lines. -/
inductive Tidy (opens : α → Bool) : Forest α → Prop where
  | nil : Tidy opens nil
  | cons {line : α} {suite rest : Forest α} (h : opens line = true ↔ suite ≠ .nil)
      (hs : Tidy opens suite) (hr : Tidy opens rest) : Tidy opens (cons line suite rest)

/-- Read rows, each a column and a line, that start in the given column. -/
def read (opens : α → Bool) (column : Nat) : List (Nat × α) → Option (Forest α)
  | [] => some nil
  | (start, line) :: rows =>
    let deeper := rows.takeWhile fun row => column < row.1
    let others := rows.dropWhile fun row => column < row.1
    if start = column ∧ opens line = !deeper.isEmpty then
      (read opens (deeper.head?.elim 0 (·.1)) deeper).bind fun suite =>
        (read opens column others).map (cons line suite)
    else none
  termination_by rows => rows.length
  decreasing_by
    · exact Nat.lt_succ_of_le (List.takeWhile_sublist _).length_le
    · exact Nat.lt_succ_of_le (List.dropWhile_sublist _).length_le

end Forest

/-- A line that ends in a colon opens a suite. -/
def opensSuite (line : String) : Bool := line.toList.getLast? = some ':'

/-- The number of blanks before a line and the rest of it, unless it is all blank. -/
def lineRow? (line : List Char) : Option (Nat × String) :=
  match line.dropWhile (· = ' ') with
  | [] => none
  | rest => some ((line.takeWhile (· = ' ')).length, String.ofList rest)

/-- The lines of a program that are not blank. Line feeds and carriage returns end lines. -/
def lineRows (code : String) : List (Nat × String) :=
  (code.toList.splitOnP fun c => c = '\n' || c = '\r').filterMap lineRow?

/-- Read a program by its indentation. Its lines start at the margin. -/
def readProgram (code : String) : Option (Forest String) := Forest.read opensSuite 0 (lineRows code)

example : readProgram "if a:\n    f()\n  g()\n" = none := by cbv
example : readProgram "if a:\n\n    f()\ng()\n" =
    some (.cons "if a:" (.leaf "f()") (.leaf "g()")) := by cbv

namespace Forest

variable {α β : Type} {opens : α → Bool} {f g : Forest α} {line : α} {d n depth width : Nat}
  {row : Nat × α}

/-- Forests in a row have their rows in a row. -/
theorem rows_append : (f.append g).rows depth = f.rows depth ++ g.rows depth := by
  induction f with
  | nil => rfl
  | cons line suite rest _ ih =>
    rw [append, rows, ih]
    simp [rows]

theorem append_assoc {e : Forest α} : (e.append f).append g = e.append (f.append g) := by
  induction e with
  | nil => rfl
  | cons line suite rest _ ih => rw [append, append, append, ih]

/-- One level deeper, every line is one level deeper. -/
theorem rows_succ : f.rows (depth + 1) = (f.rows depth).map fun row => (row.1 + 1, row.2) := by
  induction f generalizing depth with
  | nil => rfl
  | cons line suite rest ihs ihr => simp [rows, ihs, ihr]

private theorem le_of_mem_rows (h : row ∈ f.rows depth) : depth ≤ row.1 := by
  induction f generalizing depth with
  | nil => cases h
  | cons line suite rest ihs ihr =>
    rcases List.mem_cons.mp h with rfl | h
    · exact Nat.le_refl depth
    · rcases List.mem_append.mp h with h | h
      · exact Nat.le_of_succ_le (ihs h)
      · exact ihr h

theorem map_append {φ : α → β} : (f.append g).map φ = (f.map φ).append (g.map φ) := by
  induction f with
  | nil => rfl
  | cons line suite rest _ ih => rw [append, map, map, append, ih]

theorem rows_map {φ : α → β} :
    (f.map φ).rows depth = (f.rows depth).map fun row => (row.1, φ row.2) := by
  induction f generalizing depth with
  | nil => rfl
  | cons line suite rest ihs ihr => simp [map, rows, ihs, ihr]

namespace Tidy

theorem append (hf : f.Tidy opens) (hg : g.Tidy opens) : (f.append g).Tidy opens := by
  induction hf with
  | nil => exact hg
  | cons h hs _ _ ih => exact .cons h hs ih

theorem map {φ : α → β} {opens' : β → Bool} (hf : f.Tidy opens)
    (h : ∀ row ∈ f.rows depth, opens' (φ row.2) = opens row.2) : (f.map φ).Tidy opens' := by
  induction hf generalizing depth with
  | nil => exact .nil
  | @cons line suite rest hline hs hr ihs ihr =>
    obtain ⟨heq, h⟩ := List.forall_mem_cons.mp h
    obtain ⟨hsuite, hrest⟩ := List.forall_mem_append.mp h
    have hmap : suite.map φ ≠ .nil ↔ suite ≠ .nil := by cases suite <;> simp [Forest.map]
    exact .cons (by rw [heq, hmap, hline]) (ihs hsuite) (ihr hrest)

end Tidy

/-- What is written with so many blanks for each level is read back. -/
theorem read_rows (h : f.Tidy opens) (hw : 0 < width) :
    read opens (depth * width) ((f.rows depth).map fun row => (row.1 * width, row.2)) = some f := by
  induction h generalizing depth with
  | nil => rw [rows, List.map_nil, read]
  | @cons line suite rest h hs hr ihs ihr =>
    let place (row : Nat × α) : Nat × α := (row.1 * width, row.2)
    -- the deeper rows after a line are its suite; they end where the rest begins
    have hdeeper : ∀ row ∈ (suite.rows (depth + 1)).map place, decide (depth * width < row.1) := by
      intro _ hmem
      obtain ⟨row, hrow, rfl⟩ := List.mem_map.mp hmem
      exact decide_eq_true ((Nat.mul_lt_mul_right hw).mpr (le_of_mem_rows hrow))
    have hothers : ((rest.rows depth).map place).takeWhile (fun row => depth * width < row.1) = [] ∧
        ((rest.rows depth).map place).dropWhile (fun row => depth * width < row.1) =
          (rest.rows depth).map place := by
      cases rest with
      | nil => exact ⟨rfl, rfl⟩
      | cons => simp [rows, place]
    have hopens : opens line = !((suite.rows (depth + 1)).map place).isEmpty := by
      cases suite with
      | nil => simpa [rows] using h
      | cons => exact h.mpr (by simp)
    have hsuite : read opens (((suite.rows (depth + 1)).map place).head?.elim 0 (·.1))
        ((suite.rows (depth + 1)).map place) = some suite := by
      cases suite with
      | nil => rw [rows, List.map_nil, read]
      | cons => exact ihs
    rw [rows, List.map_cons, List.map_append, read]
    dsimp only
    rw [List.takeWhile_append_of_pos hdeeper, List.dropWhile_append_of_pos hdeeper, hothers.1,
      hothers.2, List.append_nil, if_pos ⟨rfl, hopens⟩, hsuite, ihr]
    rfl

end Forest

end BlockProgram.Python.Syntax
