import BlockProgram.Python.Vocabulary

/-! What the rules of the standard vocabulary have in common. They give up where a block that they ask for
has no text, they ask for the identifiers of the variables in the fields of their own block, and the only
definition that they put at the top of the program is an import that they need, before all else. -/
namespace BlockProgram.Python

open Recipe

namespace Recipe

variable {α β : Type} {P : String → Prop} {b : Block} {socket name : String} {bound : Precedence}

/-- The recipe defines nothing, gives up where a block that it asks for does, and asks for the identifiers
of certain variables only, whatever it is answered. -/
def Calm (P : String → Prop) : Recipe α → Prop
  | .done _ => True
  | .fail _ => True
  | .look k => ∀ s, (k s).Calm P
  | .visit _ k => (∀ f, (k (.ok f)).Calm P) ∧ ∀ e, k (.error e) = .fail e
  | .variableName user k => P user ∧ ∀ name, (k name).Calm P
  | .distinctName _ k => ∀ name, (k name).Calm P
  | .define _ _ _ => False

private theorem done_bind (a : α) (f : α → Recipe β) : done a >>= f = f a := rfl

private theorem fail_bind (e : GenerationError) (f : α → Recipe β) : fail e >>= f = fail e := rfl

private theorem calm_bind {r : Recipe α} {f : α → Recipe β} (h : r.Calm P) (hf : ∀ a, (f a).Calm P) :
    (r >>= f).Calm P := by
  change (r.bind f).Calm P
  induction r with
  | done a => exact hf a
  | fail e => trivial
  | look k ih => exact fun s => ih s (h s)
  | visit id k ih =>
    refine ⟨fun f => ih (.ok f) (h.1 f), fun e => ?_⟩
    dsimp only
    rw [h.2]
    rfl
  | variableName user k ih => exact ⟨h.1, fun name => ih name (h.2 name)⟩
  | distinctName base k ih => exact fun name => ih name (h name)
  | define key code k => exact h.elim

private theorem calm_block (id : BlockId) : (block id).Calm P := ⟨fun _ => trivial, fun _ => rfl⟩

private theorem calm_value? : (value? b socket bound).Calm P := by
  unfold value?
  split
  · trivial
  · refine calm_bind (calm_block _) fun f => ?_
    cases f with
    | expression code level => trivial
    | statement code => exact calm_bind (fun _ => trivial) fun _ => trivial

private theorem calm_valueOr {default : String} : (valueOr b socket bound default).Calm P :=
  calm_bind calm_value? fun _ => trivial

private theorem calm_statements (ids : List BlockId) : (statements ids).Calm P := by
  induction ids with
  | nil => trivial
  | cons id rest ih =>
    refine calm_bind (calm_block id) fun f => ?_
    cases f with
    | statement code => exact calm_bind ih fun _ => trivial
    | expression code level => exact calm_bind (fun _ => trivial) fun _ => trivial

private theorem calm_chain (head : BlockId) : (chain head).Calm P :=
  calm_bind (fun _ => trivial) fun _ => calm_statements _

private theorem calm_body : (body b socket).Calm P := by
  refine calm_bind ?_ fun code => ?_
  · unfold nested
    split
    · trivial
    · exact calm_bind (fun _ => trivial) fun _ => calm_bind (calm_chain _) fun _ => trivial
  · split
    · exact calm_bind (fun _ => trivial) fun _ => trivial
    · trivial

private theorem calm_field : (field b name).Calm P := by
  unfold field
  split <;> trivial

private theorem calm_text : (text b name).Calm P :=
  calm_bind calm_field fun value => by cases value <;> trivial

private theorem calm_number : (number b name).Calm P :=
  calm_bind calm_field fun value => by cases value <;> trivial

private theorem calm_choice {known : List String} : (choice b name known).Calm P := by
  refine calm_bind calm_field fun value => ?_
  split
  · split <;> trivial
  · trivial

private theorem calm_variableOf (h : ∀ user, b.field? name = some (.text user) → P user) :
    (variableOf b name).Calm P := by
  unfold variableOf text field
  cases hf : b.field? name with
  | none => trivial
  | some value =>
    cases value with
    | text user => exact ⟨h user hf, fun _ => trivial⟩
    | _ => trivial

private theorem calm_itemCount : (itemCount b).Calm P := by
  unfold itemCount
  split <;> trivial

private theorem calm_branchCounts : (branchCounts b).Calm P := by
  unfold branchCounts
  split <;> trivial

private theorem calm_variant : (variant b).Calm P := by
  unfold variant
  split <;> trivial

/-- A dropdown has one of the known values, or the block is faulty. -/
theorem choice_cases (b : Block) (name : String) (known : List String) :
    (∃ c ∈ known, (b.field? name).bind (·.string?) = some c ∧ choice b name known = done c) ∨
      (∀ c ∈ known, (b.field? name).bind (·.string?) ≠ some c) ∧
        ∃ e, choice b name known = fail e := by
  unfold choice field
  cases b.field? name with
  | none => exact .inr ⟨fun _ _ => nofun, _, rfl⟩
  | some value =>
    dsimp only
    rw [done_bind, Option.bind_some]
    cases value.string? with
    | none => exact .inr ⟨fun _ _ => nofun, _, rfl⟩
    | some s =>
      by_cases hs : s ∈ known
      · exact .inl ⟨s, hs, rfl, if_pos hs⟩
      · exact .inr ⟨fun c hc he => hs (Option.some.inj he ▸ hc), _, if_neg hs⟩

/-- The recipe puts the line, if there is one, at the top of the program and is calm after that. -/
def Heralds (P : String → Prop) : Option String → Recipe α → Prop
  | none, r => r.Calm P
  | some line, r => ∃ rest, r = define line line rest ∧ rest.Calm P

private theorem heralds_requireImport {line : String} {f : Unit → Recipe α} (h : (f ()).Calm P) :
    (requireImport line >>= f).Heralds P (some line) := ⟨f (), rfl, h⟩

end Recipe

variable {P : String → Prop} {b : Block}

theorem calm_chains (heads : List BlockId) : (Generator.chains heads).Calm P := by
  induction heads with
  | nil => trivial
  | cons head rest ih => exact calm_bind (calm_chain head) fun _ => calm_bind ih fun _ => trivial

private theorem calm_numberedValues (name default : String) (count start : Nat) :
    (Rules.numberedValues b name default count start).Calm P := by
  induction count generalizing start with
  | zero => trivial
  | succ count ih => exact calm_bind calm_valueOr fun _ => calm_bind (ih _) fun _ => trivial

private theorem calm_items (name default : String) : (Rules.items b name default).Calm P :=
  calm_bind calm_itemCount fun _ => calm_numberedValues name default _ 0

private theorem calm_entries (count start : Nat) : (Rules.entries b count start).Calm P := by
  induction count generalizing start with
  | zero => trivial
  | succ count ih =>
    exact calm_bind calm_valueOr fun _ => calm_bind calm_valueOr fun _ => calm_bind (ih _) fun _ => trivial

private theorem calm_conditions (count start : Nat) : (Rules.conditions b count start).Calm P := by
  induction count generalizing start with
  | zero => trivial
  | succ count ih =>
    exact calm_bind calm_valueOr fun _ => calm_bind calm_body fun _ => calm_bind (ih _) fun _ => trivial

private theorem calm_elementIndex (place : String) : (Rules.elementIndex b place).Calm P := by
  unfold Rules.elementIndex
  split
  · trivial
  · trivial
  · exact calm_bind calm_valueOr fun _ => trivial
  · exact calm_bind calm_valueOr fun _ => trivial

def UsesMath (b : Block) : Prop :=
  b.type = "math_single" ∧
    ∃ op ∈ ["ROOT", "LN", "LOG10", "EXP"], (b.field? "OP").bind (·.string?) = some op

instance (b : Block) : Decidable (UsesMath b) := by
  unfold UsesMath
  infer_instance

def importOf (b : Block) : Option String :=
  if UsesMath b then some "import math"
  else if b.type = "ndarray_zeros" then some "import numpy as np" else none

theorem importOf_eq_math : importOf b = some "import math" ↔ UsesMath b := by
  unfold importOf
  split
  · simp [*]
  · split <;> simp [*]

theorem importOf_eq_numpy : importOf b = some "import numpy as np" ↔ b.type = "ndarray_zeros" := by
  unfold importOf
  split
  · rename_i hmath
    simp [hmath.1]
  · split <;> simp [*]

/-- Only two imports are ever asked for. -/
theorem importOf_cases {line : String} (h : importOf b = some line) :
    line = "import math" ∨ line = "import numpy as np" := by
  unfold importOf at h
  split at h
  · exact .inl (Option.some.inj h).symm
  · split at h
    · exact .inr (Option.some.inj h).symm
    · cases h

/-- On a block of its type, the rule puts the import that the block needs at the top of the program. -/
private def HeraldsOwn (P : String → Prop) (entry : Shape × Rule) : Prop :=
  ∀ b, b.type = entry.1.type → (∀ spec ∈ entry.1.fields, spec.isVariable →
    ∀ user, b.field? spec.name = some (.text user) → P user) → (entry.2 b).Heralds P (importOf b)

private theorem heralds_of_calm {entry : Shape × Rule}
    (hne : entry.1.type ≠ "math_single" ∧ entry.1.type ≠ "ndarray_zeros")
    (h : ∀ b, (∀ spec ∈ entry.1.fields, spec.isVariable →
      ∀ user, b.field? spec.name = some (.text user) → P user) → (entry.2 b).Calm P) :
    HeraldsOwn P entry := by
  intro b htype hP
  have hnone : importOf b = none := by
    unfold importOf
    rw [if_neg fun hm => hne.1 (htype.symm.trans hm.1), if_neg fun hz => hne.2 (htype.symm.trans hz)]
  rw [hnone]
  exact h b hP

private theorem heralds_single (htype : b.type = "math_single") :
    (Rules.single b).Heralds P (importOf b) := by
  unfold Rules.single
  rcases choice_cases b "OP" Rules.singleNames with ⟨op, hop, hvalue, hchoice⟩ | ⟨hno, e, hchoice⟩
  · have himport : importOf b =
        if op ∈ ["ROOT", "LN", "LOG10", "EXP"] then some "import math" else none := by
      simp [importOf, UsesMath, htype, hvalue]
    rw [hchoice, done_bind, himport]
    simp only [Rules.singleNames, List.mem_cons, List.not_mem_nil, or_false] at hop
    rcases hop with rfl | rfl | rfl | rfl | rfl | rfl | rfl
    · exact heralds_requireImport (calm_bind calm_valueOr fun _ => trivial)
    · exact calm_bind calm_valueOr fun _ => trivial
    · exact calm_bind calm_valueOr fun _ => trivial
    · exact heralds_requireImport (calm_bind calm_valueOr fun _ => trivial)
    · exact heralds_requireImport (calm_bind calm_valueOr fun _ => trivial)
    · exact heralds_requireImport (calm_bind calm_valueOr fun _ => trivial)
    · exact calm_bind calm_valueOr fun _ => trivial
  · have hknown : ∀ op ∈ ["ROOT", "LN", "LOG10", "EXP"], op ∈ Rules.singleNames := by decide
    have himport : importOf b = none := by
      unfold importOf
      rw [if_neg fun ⟨_, op, hop, hvalue⟩ => hno op (hknown op hop) hvalue, if_neg (by simp [htype])]
    rw [hchoice, fail_bind, himport]
    trivial

private theorem heralds_zeros (htype : b.type = "ndarray_zeros") :
    (Rules.zeros b).Heralds P (importOf b) := by
  have himport : importOf b = some "import numpy as np" := by
    simp [importOf, UsesMath, htype]
  rw [himport]
  refine heralds_requireImport (calm_bind (calm_items _ _) fun values => ?_)
  dsimp only
  split <;> exact calm_bind trivial fun _ => trivial

private theorem heralds_values : ∀ entry ∈ Rules.values, HeraldsOwn P entry := by
  simp only [Rules.values, List.forall_mem_cons]
  refine ⟨heralds_of_calm (by decide) fun b _ => ?_, heralds_of_calm (by decide) fun b _ => ?_,
    heralds_of_calm (by decide) fun b _ => ?_, heralds_of_calm (by decide) fun b _ => ?_,
    heralds_of_calm (by decide) fun b h => ?_, List.forall_mem_nil _⟩
  · exact calm_bind calm_number fun _ => trivial
  · exact calm_bind calm_text fun _ => trivial
  · exact calm_bind calm_choice fun _ => trivial
  · trivial
  · simp only [List.forall_mem_cons] at h
    exact calm_bind (calm_variableOf fun user hu => h.1 rfl user hu) fun _ => trivial

private theorem heralds_operators : ∀ entry ∈ Rules.operators, HeraldsOwn P entry := by
  simp only [Rules.operators, List.forall_mem_cons]
  refine ⟨heralds_of_calm (by decide) fun b _ => ?_, fun b htype _ => heralds_single htype,
    heralds_of_calm (by decide) fun b _ => ?_, heralds_of_calm (by decide) fun b _ => ?_,
    heralds_of_calm (by decide) fun b _ => ?_, List.forall_mem_nil _⟩
  · exact calm_bind calm_choice fun _ => calm_bind calm_valueOr fun _ =>
      calm_bind calm_valueOr fun _ => trivial
  · exact calm_bind calm_choice fun _ => calm_bind calm_valueOr fun _ =>
      calm_bind calm_valueOr fun _ => trivial
  · exact calm_bind calm_choice fun _ => calm_bind calm_value? fun _ =>
      calm_bind calm_value? fun _ => trivial
  · exact calm_bind calm_valueOr fun _ => trivial

private theorem heralds_collections : ∀ entry ∈ Rules.collections, HeraldsOwn P entry := by
  simp only [Rules.collections, List.forall_mem_cons]
  refine ⟨heralds_of_calm (by decide) fun b _ => ?_, heralds_of_calm (by decide) fun b _ => ?_,
    heralds_of_calm (by decide) fun b _ => ?_, heralds_of_calm (by decide) fun b _ => ?_,
    fun b htype _ => heralds_zeros htype, List.forall_mem_nil _⟩
  · exact calm_bind (calm_items _ _) fun _ => trivial
  · exact calm_bind calm_itemCount fun _ => calm_bind (calm_entries _ _) fun _ => trivial
  · refine calm_bind (calm_items _ _) fun values => ?_
    dsimp only
    split <;> trivial
  · refine calm_bind calm_variant fun mode => calm_bind calm_choice fun place =>
      calm_bind calm_valueOr fun list => calm_bind (calm_elementIndex place) fun index => ?_
    split <;> trivial

private theorem heralds_assignment : ∀ entry ∈ Rules.assignment, HeraldsOwn P entry := by
  simp only [Rules.assignment, List.forall_mem_cons]
  refine ⟨heralds_of_calm (by decide) fun b h => ?_, List.forall_mem_nil _⟩
  simp only [List.forall_mem_cons] at h
  exact calm_bind (calm_variableOf fun user hu => h.1 rfl user hu) fun _ =>
    calm_bind calm_valueOr fun _ => trivial

private theorem heralds_control : ∀ entry ∈ Rules.control, HeraldsOwn P entry := by
  simp only [Rules.control, List.forall_mem_cons]
  refine ⟨heralds_of_calm (by decide) fun b _ => ?_, heralds_of_calm (by decide) fun b _ => ?_,
    heralds_of_calm (by decide) fun b _ => ?_, heralds_of_calm (by decide) fun b h => ?_,
    heralds_of_calm (by decide) fun b _ => ?_, heralds_of_calm (by decide) fun b _ => ?_,
    List.forall_mem_nil _⟩
  · exact calm_bind calm_valueOr fun _ => trivial
  · exact calm_bind calm_valueOr fun _ =>
      calm_bind (fun _ => trivial) fun _ => calm_bind calm_body fun _ => trivial
  · refine calm_bind calm_choice fun mode => ?_
    dsimp only
    split
    · exact calm_bind calm_valueOr fun _ => calm_bind calm_body fun _ => trivial
    · exact calm_bind calm_valueOr fun _ => calm_bind trivial fun _ =>
        calm_bind calm_body fun _ => trivial
  · simp only [List.forall_mem_cons] at h
    exact calm_bind (calm_variableOf fun user hu => h.1 rfl user hu) fun _ =>
      calm_bind calm_valueOr fun _ => calm_bind calm_body fun _ => trivial
  · refine calm_bind calm_branchCounts fun counts => calm_bind (calm_conditions _ _) fun _ => ?_
    split
    · exact calm_bind calm_body fun _ => trivial
    · trivial
  · refine calm_bind calm_value? fun value => ?_
    cases value <;> trivial

private theorem heralds_program : ∀ entry ∈ Rules.program, HeraldsOwn P entry := by
  simp only [Rules.program, List.forall_mem_cons]
  refine ⟨heralds_of_calm (by decide) fun b _ => ?_, List.forall_mem_nil _⟩
  exact calm_bind calm_text fun _ => calm_bind (fun _ => trivial) fun _ => calm_bind calm_body fun _ =>
    calm_bind (fun _ => trivial) fun _ => trivial

/-- Every standard rule asks for the import that its block needs, and for no other definition. -/
theorem heralds_standard {entry : Shape × Rule} (h : entry ∈ standardTypes)
    (htype : b.type = entry.1.type) (hP : ∀ spec ∈ entry.1.fields, spec.isVariable →
      ∀ user, b.field? spec.name = some (.text user) → P user) :
    (entry.2 b).Heralds P (importOf b) := by
  have hall : ∀ entry ∈ standardTypes, HeraldsOwn P entry := by
    simp only [standardTypes, List.forall_mem_append]
    exact ⟨⟨⟨⟨⟨heralds_values, heralds_operators⟩, heralds_collections⟩, heralds_assignment⟩,
      heralds_control⟩, heralds_program⟩
  exact hall entry h b htype hP

end BlockProgram.Python
