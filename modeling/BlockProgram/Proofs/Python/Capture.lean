import BlockProgram.Proofs.Python.Naming

/-! Names that the text of the rules itself refers to, and whether a name that is handed out can be one
of them. All of them but one are reserved. The one that is not, `__name__` in the test below a main
program, is handed out to the first variable, or else the first function, that is spelled like it. -/
namespace BlockProgram.Python

open Syntax Workspace

/-- The name that the module compares with `__main__` below a main program. -/
def guardName : String := "__name__"

/-- The names that rules write without asking for them. -/
def reliedOn : List String :=
  keywords ++ ["print", "range", "int", "str", "abs", "float", "math", "np", guardName]

/-- A variable or a function that would be spelled like the guard. -/
def GuardSpelled (text : String) : Prop := sanitize text = guardName

instance (text : String) : Decidable (GuardSpelled text) := inferInstanceAs (Decidable (_ = _))

variable {w : Workspace} {names names' : Names} {base user : String} {users : List String}
  {l : List Naming}

/-- The guard does not end in a number, so that no number after another base makes it. -/
theorem Names.distinct_eq_guardName :
    (names.distinct base).1 = guardName ↔ GuardSpelled base ∧ guardName ∉ names.taken := by
  have hend : Unnumbered guardName := by decide
  unfold GuardSpelled
  rcases names.firstFree_distinct base with ⟨hfree, he⟩ | ⟨htaken, k, -, he, -, -⟩
  · exact ⟨fun h => ⟨he.symm.trans h, h ▸ he ▸ hfree⟩, fun h => he.trans h.1⟩
  · exact ⟨fun h => absurd (he.symm.trans h) hend.ne_numbered, fun h => absurd (h.1 ▸ htaken) h.2⟩

/-- What the tables say of the guard once the variables in `users` have been asked for. -/
private structure Guards (users : List String) (names : Names) : Prop where
  known : ∀ user, user ∈ users ↔ ∃ name, (user, name) ∈ names.identifiers
  taken : guardName ∈ names.taken ↔ ∃ user ∈ users, GuardSpelled user
  named : ∀ entry ∈ names.identifiers,
    entry.2 = guardName ↔ users.find? (GuardSpelled ·) = some entry.1

private theorem Guards.again (h : Guards users names) (hu : user ∈ users) :
    Guards (users ++ [user]) names := by
  have hmem (user' : String) : user' ∈ users ++ [user] ↔ user' ∈ users := by
    rw [List.mem_append, List.mem_singleton]
    exact ⟨fun h => h.elim id (· ▸ hu), .inl⟩
  refine ⟨fun user' => (hmem user').trans (h.known user'), ?_, fun entry he => ?_⟩
  · simp only [hmem, h.taken]
  · rw [h.named entry he, List.find?_append]
    cases hf : users.find? (GuardSpelled ·) with
    | some first => rfl
    | none =>
      have hno : ¬ GuardSpelled user := by simpa using List.find?_eq_none.mp hf user hu
      simp [hno]

private theorem Guards.new (h : Guards users names) (hu : user ∉ users) :
    Guards (users ++ [user])
      { (names.distinct user).2 with
        identifiers := names.identifiers ++ [(user, (names.distinct user).1)] } := by
  have hname : (names.distinct user).1 = guardName ↔
      GuardSpelled user ∧ ¬ ∃ user ∈ users, GuardSpelled user := by
    rw [names.distinct_eq_guardName, h.taken]
  refine ⟨fun user' => ?_, ?_, fun entry he => ?_⟩
  · simp only [List.mem_append, h.known, List.mem_singleton, Prod.mk.injEq, exists_or,
      exists_and_left, exists_eq, and_true]
  · change guardName ∈ names.taken ++ [(names.distinct user).1] ↔ _
    rw [List.mem_append, List.mem_singleton, h.taken, eq_comm (a := guardName), hname]
    simp only [List.mem_append, List.mem_singleton, or_and_right, exists_or, exists_eq_left]
    by_cases hp : ∃ user ∈ users, GuardSpelled user <;> simp [hp]
  · rw [List.find?_append]
    rcases List.mem_append.mp he with he | he
    · have hother : user ≠ entry.1 := fun heq => hu ((h.known user).mpr ⟨entry.2, heq ▸ he⟩)
      rw [h.named entry he]
      cases hf : users.find? (GuardSpelled ·) with
      | some first => rfl
      | none =>
        simp only [Option.none_or, reduceCtorEq, false_iff]
        exact fun hsome => hother (List.mem_singleton.mp (List.mem_of_find?_eq_some hsome)).symm
    · rw [List.mem_singleton.mp he, hname]
      cases hf : users.find? (GuardSpelled ·) with
      | some first =>
        have hmem : first ∈ users := List.mem_of_find?_eq_some hf
        have hspelled : GuardSpelled first := by simpa using List.find?_some hf
        have hfirst : first ≠ user := fun heq => hu (heq ▸ hmem)
        simpa [hfirst] using fun _ => ⟨first, hmem, hspelled⟩
      | none =>
        have hnone : ¬ ∃ user ∈ users, GuardSpelled user := by simpa using hf
        by_cases hg : GuardSpelled user <;> simp [hnone, hg]

private theorem Guards.variableName (h : Guards users names) (user : String) :
    Guards (users ++ [user]) (names.variableName user).2 := by
  obtain ⟨name, hname, he⟩ | ⟨hnew, he⟩ := names.variableName_cases user <;> rw [he]
  · exact h.again ((h.known user).mpr ⟨name, hname⟩)
  · exact h.new fun hu => ((h.known user).mp hu).elim hnew

/-- A main program that is called like the guard: the test compares the function with `__main__`, and
nothing runs. -/
theorem guard_captured :
    let steps := [Action.add ⟨"#1"⟩ "program_main" false, .setField ⟨"#1"⟩ "NAME" (.text "__name__")]
    let w := steps.foldl Action.apply (.empty standard.shapes)
    let l := (standard.generator 4).namings w
    w.shapes = standard.shapes ∧
      l = [⟨some ⟨"#1"⟩, .fresh "__name__", "__name__"⟩] ∧ "__name__" ∈ reliedOn ∧
      (standard.generator 4).generate w = .ok "def __name__():
    pass


if __name__ == '__main__':
    __name__()
" := by
  decide +kernel

end BlockProgram.Python
