import BlockProgram.Proofs.Python.Syntax.Grammar
import BlockProgram.Proofs.Shape.Numbered
import BlockProgram.Python.Generator
import Mathlib.Data.List.Nodup

/-! Names that are handed out are identifiers of the generated language, none of them a keyword. A variable
of the user that is known keeps its identifier for the rest of a run. -/
namespace BlockProgram.Python

open Syntax

variable {names : Names} {base user text name : String} {taken users : List String} {w : Workspace}

private theorem isWordChar_sanitizedChar (c : Char) : isWordChar (sanitizedChar c) := by
  unfold sanitizedChar
  split
  · rename_i h
    simpa [isWordChar] using h
  · decide

/-- An underscore stands before a digit in front. -/
theorem exists_sanitize (text : String) : ∃ c cs, (∀ d ∈ c :: cs, isWordChar d) ∧
    sanitize text = String.ofList (if c.isDigit then '_' :: c :: cs else c :: cs) := by
  unfold sanitize
  cases text.toList with
  | nil =>
    have hword : Word "unnamed" := by decide
    exact ⟨'u', "nnamed".toList, hword.chars, rfl⟩
  | cons c cs =>
    refine ⟨sanitizedChar c, cs.map sanitizedChar, fun d hd => ?_, rfl⟩
    obtain ⟨c', -, rfl⟩ := List.mem_map.mp (List.map_cons ▸ hd)
    exact isWordChar_sanitizedChar c'

private theorem opens_sanitize (text : String) : Opens (fun c => c.isDigit = false) (sanitize text) := by
  obtain ⟨c, cs, -, he⟩ := exists_sanitize text
  rw [he, Opens, String.toList_ofList]
  split
  · exact ⟨'_', rfl, by decide⟩
  · rename_i h
    exact ⟨c, rfl, Bool.eq_false_iff.mpr h⟩

theorem isWordChar_of_mem_sanitize {c : Char} (hc : c ∈ (sanitize text).toList) : isWordChar c := by
  obtain ⟨d, ds, hall, he⟩ := exists_sanitize text
  rw [he, String.toList_ofList] at hc
  split at hc
  · rcases List.mem_cons.mp hc with rfl | hc
    · decide
    · exact hall c hc
  · exact hall c hc

/-- Every number before the one that the search ends with is taken; the last one is not tried any more. -/
theorem exists_freeName (taken : List String) (base : String) (fuel k : Nat) :
    ∃ j : Nat, freeName taken base fuel k = base ++ toString j ∧ k ≤ j ∧
      (∀ i, k ≤ i → i < j → base ++ toString i ∈ taken) ∧
      (base ++ toString j ∈ taken → j = k + fuel) := by
  induction fuel generalizing k with
  | zero => exact ⟨k, rfl, Nat.le_refl k, fun i hi hlt => by omega, fun _ => rfl⟩
  | succ fuel ih =>
    unfold freeName
    dsimp only
    split
    · rename_i htaken
      obtain ⟨j, hj, hle, hbefore, hlast⟩ := ih (k + 1)
      refine ⟨j, hj, by omega, fun i hi hlt => ?_, fun hm => ?_⟩
      · by_cases he : i = k
        · exact he ▸ htaken
        · exact hbefore i (by omega) hlt
      · have := hlast hm
        omega
    · rename_i hfree
      exact ⟨k, rfl, Nat.le_refl k, fun i hi hlt => by omega, fun hm => absurd hm hfree⟩

/-- A name is the base itself if that is free, and otherwise the base with the first number from two on
that makes it free. -/
def FirstFree (taken : List String) (base name : String) : Prop :=
  base ∉ taken ∧ name = base ∨
    base ∈ taken ∧ ∃ k : Nat, 2 ≤ k ∧ name = base ++ toString k ∧ name ∉ taken ∧
      ∀ i, 2 ≤ i → i < k → base ++ toString i ∈ taken

/-- As many numbers are tried as names are taken, so one of them is free. -/
theorem Names.firstFree_distinct (names : Names) (base : String) :
    FirstFree names.taken (sanitize base) (names.distinct base).1 := by
  unfold Names.distinct
  dsimp only
  split
  · rename_i hbase
    obtain ⟨j, hj, hle, hbefore, hlast⟩ :=
      exists_freeName names.taken (sanitize base) names.taken.length 2
    refine .inr ⟨hbase, j, hle, hj, fun hm => ?_, hbefore⟩
    rw [hj] at hm
    have hend := hlast hm
    let tried := (List.range' 2 (names.taken.length + 1)).map fun i => sanitize base ++ toString i
    have hnodup : tried.Nodup :=
      List.Nodup.map (fun _ _ he => numbered_inj he) List.nodup_range'
    have hsubset : tried ⊆ names.taken := by
      intro name hname
      obtain ⟨i, hi, rfl⟩ := List.mem_map.mp hname
      obtain ⟨hi, hlt⟩ := List.mem_range'_1.mp hi
      by_cases he : i = j
      · exact he ▸ hm
      · exact hbefore i hi (by omega)
    have hle := hnodup.length_le_of_subset hsubset
    simp only [tried, List.length_map, List.length_range'] at hle
    omega
  · rename_i hbase
    exact .inl ⟨hbase, rfl⟩

/-- A name that is handed out has not been taken before. -/
theorem Names.distinct_not_mem (names : Names) (base : String) :
    (names.distinct base).1 ∉ names.taken := by
  rcases names.firstFree_distinct base with ⟨hfree, he⟩ | ⟨-, k, -, -, hfree, -⟩
  · exact he ▸ hfree
  · exact hfree

/-- An identifier that is neither a keyword nor hides a builtin. -/
structure Usable (name : String) : Prop where
  word : Word name
  free : name ∉ reserved

theorem Usable.proper (h : Usable name) : Proper name := by
  have hkeywords : keywords ⊆ reserved := by decide
  exact ⟨h.word, fun hm => h.free (hkeywords hm)⟩

/-- Any text can be made a word. -/
theorem word_sanitize (text : String) : Word (sanitize text) :=
  ⟨opens_sanitize text, fun _ => isWordChar_of_mem_sanitize⟩

theorem Syntax.Word.numbered (h : Word name) (k : Nat) : Word (name ++ toString k) := by
  refine ⟨h.opens.append, fun c hc => ?_⟩
  rw [String.toList_append, Nat.toString_eq_repr, Nat.toList_repr, List.mem_append] at hc
  rcases hc with hc | hc
  · exact h.chars c hc
  · have hdigit : c.isDigit := Nat.isDigit_of_mem_toDigits (by omega) (by omega) hc
    simp [isWordChar, Char.isAlphanum, hdigit]

/-- A name that is handed out can be used: it is a word, and neither a keyword nor a builtin. -/
theorem usable_distinct (h : reserved ⊆ names.taken) : Usable (names.distinct base).1 := by
  refine ⟨?_, fun hm => names.distinct_not_mem base (h hm)⟩
  rcases names.firstFree_distinct base with ⟨-, he⟩ | ⟨-, k, -, he, -⟩
  · exact he ▸ word_sanitize base
  · exact he ▸ (word_sanitize base).numbered k

/-- What is reserved is taken, and so are the identifiers of variables, each of them for one variable. -/
structure Names.Sane (names : Names) : Prop where
  taken : reserved ⊆ names.taken
  usable : ∀ entry ∈ names.identifiers, Usable entry.2
  used : ∀ entry ∈ names.identifiers, entry.2 ∈ names.taken
  nodup : (names.identifiers.map (·.2)).Nodup

theorem Names.Sane.distinct (h : names.Sane) : (names.distinct base).2.Sane :=
  ⟨List.Subset.trans h.taken (List.subset_append_left _ _), h.usable,
    fun entry he => List.mem_append_left _ (h.used entry he), h.nodup⟩

/-- A variable is known, or is entered under a distinct name. -/
theorem Names.variableName_cases (names : Names) (user : String) :
    (∃ name, (user, name) ∈ names.identifiers ∧ names.variableName user = (name, names)) ∨
      (∀ name, (user, name) ∉ names.identifiers) ∧ names.variableName user =
        ((names.distinct user).1, { (names.distinct user).2 with
          identifiers := names.identifiers ++ [(user, (names.distinct user).1)] }) := by
  unfold Names.variableName
  cases hf : names.identifiers.find? fun entry => entry.1 = user with
  | some entry =>
    obtain rfl : entry.1 = user := by simpa using List.find?_some hf
    exact .inl ⟨entry.2, List.mem_of_find?_eq_some hf, rfl⟩
  | none => exact .inr ⟨fun name hname => by simpa using List.find?_eq_none.mp hf _ hname, rfl⟩

theorem Names.Sane.variableName (h : names.Sane) : (names.variableName user).2.Sane := by
  obtain ⟨name, -, he⟩ | ⟨-, he⟩ := names.variableName_cases user <;> rw [he]
  · exact h
  · have hnew : (names.distinct user).1 ∉ names.identifiers.map (·.2) := by
      intro hm
      obtain ⟨entry, he, heq⟩ := List.mem_map.mp hm
      exact names.distinct_not_mem user (heq ▸ h.used entry he)
    have hdistinct : (names.distinct user).2.Sane := h.distinct
    refine ⟨hdistinct.taken, fun entry he => ?_, fun entry he => ?_, ?_⟩
    · rcases List.mem_append.mp he with he | he
      · exact h.usable entry he
      · exact List.mem_singleton.mp he ▸ usable_distinct h.taken
    · rcases List.mem_append.mp he with he | he
      · exact hdistinct.used entry he
      · obtain rfl := List.mem_singleton.mp he
        exact List.mem_append_right _ (List.mem_singleton_self _)
    · rw [List.map_append]
      exact List.concat_eq_append ▸ List.Nodup.concat hnew h.nodup

/-- A variable that has been asked for is known. -/
theorem Names.mem_variableName (names : Names) (user : String) :
    ∃ name, (user, name) ∈ (names.variableName user).2.identifiers := by
  obtain ⟨name, hname, he⟩ | ⟨-, he⟩ := names.variableName_cases user <;> rw [he]
  · exact ⟨name, hname⟩
  · exact ⟨_, List.mem_append_right _ (List.mem_singleton_self _)⟩

private theorem Names.prefix_variableName :
    names.identifiers <+: (names.variableName user).2.identifiers := by
  obtain ⟨name, -, he⟩ | ⟨-, he⟩ := names.variableName_cases user
  · exact he ▸ List.prefix_rfl
  · exact he ▸ List.prefix_append _ _

private theorem fold_variableName (users : List String) (names : Names) :
    let names' := users.foldl (fun names user => (names.variableName user).2) names
    names.identifiers <+: names'.identifiers ∧ (names.Sane → names'.Sane) ∧
      ∀ user ∈ users, ∃ name, (user, name) ∈ names'.identifiers := by
  induction users generalizing names with
  | nil => exact ⟨List.prefix_rfl, id, by simp⟩
  | cons user users ih =>
    obtain ⟨hmore, hsane, hknown⟩ := ih (names.variableName user).2
    refine ⟨Names.prefix_variableName.trans hmore, fun h => hsane h.variableName, fun user' hu => ?_⟩
    rcases List.mem_cons.mp hu with rfl | hu
    · obtain ⟨name, hname⟩ := names.mem_variableName user'
      exact ⟨name, hmore.subset hname⟩
    · exact hknown user' hu

theorem sane_userNames : (userNames w).Sane :=
  (fold_variableName _ {}).2.1 ⟨fun _ h => h, by simp, by simp, by simp⟩

def variablesOf (w : Workspace) (b : Block) : List String :=
  match w.shapes.get? b.type with
  | none => []
  | some shape => (shape.fields.filter (·.isVariable)).filterMap fun spec =>
      (b.field? spec.name).bind (·.string?)

theorem mem_variablesOf {b : Block} {shape : Shape} {spec : FieldSpec}
    (hshape : w.shapes.get? b.type = some shape) (hspec : spec ∈ shape.fields)
    (hv : spec.isVariable) (hf : b.field? spec.name = some (.text user)) :
    user ∈ variablesOf w b := by
  unfold variablesOf
  rw [hshape]
  refine List.mem_filterMap.mpr ⟨spec, List.mem_filter.mpr ⟨hspec, hv⟩, ?_⟩
  rw [hf]
  rfl

/-- The variables of the user in all blocks of a workspace, be they generated or not. -/
def variablesIn (w : Workspace) : List String := w.blocks.flatMap (variablesOf w)

/-- The identifier of a variable of the user in the program of a workspace. -/
def identifierIn (w : Workspace) (user : String) : String := ((userNames w).variableName user).1

private theorem Names.variableName_of_find? {entry : String × String}
    (h : (names.identifiers.find? fun entry => entry.1 = user) = some entry) :
    names.variableName user = (entry.2, names) := by
  unfold Names.variableName
  rw [h]

/-- The variables in the blocks of a workspace are known before anything is generated. -/
theorem find?_userNames (hu : user ∈ variablesIn w) :
    ((userNames w).identifiers.find? fun entry => entry.1 = user) =
      some (user, identifierIn w user) := by
  obtain ⟨name, hname⟩ := (fold_variableName (variablesIn w) {}).2.2 user hu
  obtain ⟨entry, hentry⟩ : ∃ entry,
      ((userNames w).identifiers.find? fun entry => entry.1 = user) = some entry :=
    Option.isSome_iff_exists.mp (List.find?_isSome.mpr ⟨_, hname, by simp⟩)
  have huser : entry.1 = user := by simpa using List.find?_some hentry
  unfold identifierIn
  rw [Names.variableName_of_find? hentry, hentry, ← huser]

theorem mem_userNames (hu : user ∈ variablesIn w) :
    (user, identifierIn w user) ∈ (userNames w).identifiers :=
  List.mem_of_find?_eq_some (find?_userNames hu)

theorem usable_identifierIn (hu : user ∈ variablesIn w) : Usable (identifierIn w user) :=
  sane_userNames.usable _ (mem_userNames hu)

/-- The names of a run go on from those of the workspace. -/
def Continues (w : Workspace) (names : Names) : Prop :=
  (userNames w).identifiers <+: names.identifiers

theorem continues_userNames : Continues w (userNames w) := List.prefix_rfl

theorem Continues.variableName (h : Continues w names) :
    Continues w (names.variableName user).2 := List.IsPrefix.trans h Names.prefix_variableName

/-- A variable in a block of the workspace is known for the rest of a run. -/
theorem Continues.variableName_eq (h : Continues w names) (hu : user ∈ variablesIn w) :
    names.variableName user = (identifierIn w user, names) := by
  obtain ⟨more, hmore⟩ := h
  have hfind : (names.identifiers.find? fun entry => entry.1 = user) =
      some (user, identifierIn w user) := by
    rw [← hmore, List.find?_append, find?_userNames hu]
    rfl
  exact Names.variableName_of_find? hfind

end BlockProgram.Python
