import BlockProgram.Proofs.Block.Field
import BlockProgram.Proofs.Mutation.Token
import BlockProgram.Proofs.Shape.Units
import BlockProgram.Workspace.Reshape

/-! What a shape has to declare so that its fields can show every mutation: defaults that they allow, units
that are not too many, and a field for the count or the variant. Every block can be written down and read
back if also no variant is without a name. -/
namespace BlockProgram

namespace Shape

variable {shape : Shape} {m m' : Mutation} {name : String} {value : FieldValue}

/-- The connectors that blocks of a shape can have. -/
def forms (shape : Shape) : List Connectors :=
  shape.connectors :: match shape.mutator with
    | .variants _ list => list.map (·.connectors)
    | _ => []

theorem connectorsOf_mem_forms (shape : Shape) (m : Mutation) :
    shape.connectorsOf m ∈ shape.forms := by
  unfold connectorsOf forms
  cases shape.mutator with
  | variants field list =>
    cases m with
    | variant name =>
      dsimp only
      cases hv : list.find? fun v => v.name = name with
      | none => exact List.mem_cons_self
      | some v =>
        exact List.mem_cons_of_mem _ (List.mem_map_of_mem (List.mem_of_find?_eq_some hv))
    | _ => exact List.mem_cons_self
  | _ => exact List.mem_cons_self

/-- The units of a new block are not too many and its count field starts with their number; the variant field
is a dropdown that offers all variants and starts with one of them. -/
def MutatorConsistent (shape : Shape) : Prop :=
  match shape.mutator with
  | .repeats spec => spec.initial ≤ Mutation.maxUnits ∧ ∀ field ∈ spec.countField,
      ∃ f ∈ shape.fieldSpec? field, f.default = .number (.ofNat spec.initial)
  | .variants field list => ∃ f ∈ shape.fieldSpec? field,
      (∃ choices ∈ f.choices, ∀ v ∈ list, v.name ∈ choices) ∧ ∃ v ∈ list, f.default = .choice v.name
  | .fixed => True
  | .branches => True

instance (shape : Shape) : Decidable shape.MutatorConsistent := by
  unfold MutatorConsistent
  obtain ⟨_, _, _, _, mutator, _⟩ := shape
  rcases mutator with _ | _ | _ | _ <;> infer_instance

/-- A shape whose fields can show all that its blocks can be. -/
structure Consistent (shape : Shape) : Prop where
  names : (shape.fields.map (·.name)).Nodup
  /-- A dropdown, whose default is its first choice, has a choice. -/
  defaults : ∀ f ∈ shape.fields, f.allows f.default
  mutator : shape.MutatorConsistent

instance (shape : Shape) : Decidable shape.Consistent :=
  decidable_of_iff ((shape.fields.map (·.name)).Nodup ∧ (∀ f ∈ shape.fields, f.allows f.default) ∧
    shape.MutatorConsistent) ⟨fun ⟨h, h', h''⟩ => ⟨h, h', h''⟩, fun h => ⟨h.1, h.2, h.3⟩⟩

/-- The units of a new block are not too many and its count field shows them; a variant has a name, and
the variant field is a dropdown that offers all variants and starts with one of them. -/
def MutatorDeclared (shape : Shape) : Prop :=
  match shape.mutator with
  | .repeats spec => spec.initial ≤ Mutation.maxUnits ∧ ∀ field ∈ spec.countField,
      ∃ f ∈ shape.fieldSpec? field, f.choices = none ∧ f.default = .number (.ofNat spec.initial)
  | .variants field list => (∀ v ∈ list, v.name ≠ "") ∧ ∃ f ∈ shape.fieldSpec? field,
      (∃ choices ∈ f.choices, ∀ v ∈ list, v.name ∈ choices) ∧ ∃ v ∈ list, f.default = .choice v.name
  | .fixed => True
  | .branches => True

instance (shape : Shape) : Decidable shape.MutatorDeclared := by
  unfold MutatorDeclared
  obtain ⟨_, _, _, _, mutator, _⟩ := shape
  rcases mutator with _ | _ | _ | _ <;> infer_instance

/-- A shape whose blocks can be written down and read back. -/
structure Declared (shape : Shape) : Prop where
  names : (shape.fields.map (·.name)).Nodup
  /-- A dropdown, whose default is its first choice, has a choice. -/
  defaults : ∀ f ∈ shape.fields, f.allows f.default
  expressions : ∀ c ∈ shape.forms, c.output → c.previous = false ∧ c.next = false
  mutator : shape.MutatorDeclared

instance (shape : Shape) : Decidable shape.Declared :=
  decidable_of_iff ((shape.fields.map (·.name)).Nodup ∧ (∀ f ∈ shape.fields, f.allows f.default) ∧
    (∀ c ∈ shape.forms, c.output → c.previous = false ∧ c.next = false) ∧ shape.MutatorDeclared)
    ⟨fun ⟨h, h', h'', h'''⟩ => ⟨h, h', h'', h'''⟩, fun h => ⟨h.1, h.2, h.3, h.4⟩⟩

/-- The field that shows a mutation, and what it shows. -/
def mirror (shape : Shape) (m : Mutation) : Option (String × FieldValue) :=
  match shape.mutator, m with
  | .repeats spec, .items n => spec.countField.map fun field => (field, .number (.ofNat n))
  | .variants field _, .variant name => some (field, .choice name)
  | _, _ => none

def Shows (shape : Shape) (m : Mutation) (fields : Fields) : Prop :=
  ∀ name value, shape.mirror m = some (name, value) → fields.get? name = some value

/-- The fields are those of the shape, and hold what they may hold. -/
def Fills (shape : Shape) (fields : Fields) : Prop :=
  ∀ name, Option.Rel (fun value f => f.allows value = true) (fields.get? name)
    (shape.fieldSpec? name)

theorem showMutation_eq (shape : Shape) (m : Mutation) (fields : Fields) :
    Workspace.showMutation shape m fields = match shape.mirror m with
      | some (name, value) => fields.insert name value
      | none => fields := by
  unfold Workspace.showMutation mirror
  cases shape.mutator with
  | repeats spec =>
    cases m with
    | items n =>
      dsimp only
      cases spec.countField <;> rfl
    | _ => rfl
  | _ => cases m <;> rfl

section fields

variable {fields : Fields} {f : FieldSpec}

/-- Fields that have been made to show a mutation show it. -/
theorem shows_showMutation (shape : Shape) (m : Mutation) (fields : Fields) :
    shape.Shows m (Workspace.showMutation shape m fields) := by
  intro name value hm
  rw [showMutation_eq, hm]
  simp [Fields.get?_insert]

theorem Shows.showMutation (h : shape.Shows m fields) :
    Workspace.showMutation shape m fields = fields := by
  rw [showMutation_eq]
  cases hm : shape.mirror m with
  | none => rfl
  | some entry => exact Fields.insert_eq_self.mpr (h _ _ hm)

/-- Any other field may change. -/
theorem Shows.insert (h : shape.Shows m fields) (hne : ∀ v, shape.mirror m ≠ some (name, v)) :
    shape.Shows m (fields.insert name value) := by
  intro n v hm
  rw [Fields.get?_insert, if_neg]
  · exact h n v hm
  · rintro rfl
    exact hne v hm

theorem Fills.insert (h : shape.Fills fields) (hf : shape.fieldSpec? name = some f)
    (hv : f.allows value) : shape.Fills (fields.insert name value) := by
  intro n
  rw [Fields.get?_insert]
  split
  · rename_i hn
    rw [hn, hf]
    exact .some hv
  · exact h n

theorem Fills.exists_value (h : shape.Fills fields) (hf : shape.fieldSpec? name = some f) :
    ∃ v, fields.get? name = some v ∧ f.allows v := by
  have hrel := h name
  rw [hf] at hrel
  generalize fields.get? name = value at hrel
  cases hrel with
  | some hv => exact ⟨_, rfl, hv⟩

theorem Fills.exists_spec (h : shape.Fills fields) (hv : fields.get? name = some value) :
    ∃ f, shape.fieldSpec? name = some f ∧ f.allows value := by
  have hrel := h name
  rw [hv] at hrel
  generalize shape.fieldSpec? name = f at hrel
  cases hrel with
  | some hf => exact ⟨_, rfl, hf⟩

/-- Other fields of the shape have no values besides. -/
theorem Fills.get?_or (h : shape.Fills fields) {fields' : Fields} (h' : shape.Fills fields') :
    (fields.get? name).or (fields'.get? name) = fields.get? name := by
  cases hv : fields.get? name with
  | some _ => rfl
  | none =>
    cases hv' : fields'.get? name with
    | none => rfl
    | some _ =>
      obtain ⟨f, hf, -⟩ := h'.exists_spec hv'
      obtain ⟨_, hsome, -⟩ := h.exists_value hf
      simp [hv] at hsome

end fields

namespace Consistent

variable (h : shape.Consistent)
include h

private theorem get?_defaults :
    shape.defaults.get? name = (shape.fieldSpec? name).map (·.default) := by
  unfold Shape.defaults fieldSpec?
  rw [Fields.get?_ofList (by simpa [Function.comp_def] using h.names), List.find?_map,
    Option.map_map]
  rfl

/-- Every default passes the check of its own field. -/
theorem fills_defaults : shape.Fills shape.defaults := by
  intro name
  rw [h.get?_defaults]
  cases hf : shape.fieldSpec? name with
  | none => exact .none
  | some f => exact .some (h.defaults f (List.mem_of_find?_eq_some hf))

private theorem initial_variants {field : String} {list : List VariantSpec}
    (hmut : shape.mutator = .variants field list) : ∃ v ∈ list, shape.initial = .variant v.name ∧
      ∃ f, shape.fieldSpec? field = some f ∧ f.default = .choice v.name := by
  have hdecl := h.mutator
  unfold MutatorConsistent at hdecl
  rw [hmut] at hdecl
  obtain ⟨f, hf, -, v, hv, hdefault⟩ := hdecl
  have hname : v.name ∈ variantNames list := List.mem_map_of_mem hv
  refine ⟨v, hv, ?_, f, hf, hdefault⟩
  unfold initial
  rw [hmut]
  dsimp only
  rw [hf, Option.bind_some, hdefault]
  simp [FieldValue.string?, Option.filter, hname]

theorem shows_initial : shape.Shows shape.initial shape.defaults := by
  intro name value hm
  rw [h.get?_defaults]
  cases hmut : shape.mutator with
  | fixed => simp [mirror, hmut] at hm
  | branches => simp [mirror, hmut] at hm
  | repeats spec =>
    have hdecl := h.mutator
    unfold MutatorConsistent at hdecl
    simp only [mirror, initial, hmut, Option.map_eq_some_iff, Prod.mk.injEq] at hm hdecl
    obtain ⟨field, hfield, rfl, rfl⟩ := hm
    obtain ⟨f, hf, hdefault⟩ := hdecl.2 field hfield
    rw [hf, Option.map_some, hdefault]
  | variants field list =>
    obtain ⟨v, -, hinit, f, hf, hdefault⟩ := h.initial_variants hmut
    simp only [mirror, hinit, hmut, Option.some.injEq, Prod.mk.injEq] at hm
    obtain ⟨rfl, rfl⟩ := hm
    rw [hf, Option.map_some, hdefault]

/-- A new block has a mutation of its shape. -/
theorem accepts_initial : shape.accepts shape.initial := by
  cases hmut : shape.mutator with
  | fixed => simp [accepts, initial, hmut]
  | branches => simp [accepts, initial, hmut]
  | repeats spec =>
    have hdecl := h.mutator
    unfold MutatorConsistent at hdecl
    rw [hmut] at hdecl
    simpa [accepts, initial, hmut] using hdecl.1
  | variants field list =>
    obtain ⟨v, hv, hinit, -⟩ := h.initial_variants hmut
    simpa [accepts, hinit, hmut, variantNames] using ⟨v, hv, rfl⟩

/-- What a field shows of a mutation is something that it may hold. -/
theorem allows_mirror (ha : shape.accepts m) (hm : shape.mirror m = some (name, value)) :
    ∃ f, shape.fieldSpec? name = some f ∧ f.allows value := by
  have hdecl := h.mutator
  unfold MutatorConsistent at hdecl
  unfold mirror at hm
  unfold accepts at ha
  cases hmut : shape.mutator with
  | fixed => simp [hmut] at hm
  | branches => simp [hmut] at hm
  | repeats spec =>
    cases m with
    | items n =>
      simp only [hmut, Option.map_eq_some_iff, Prod.mk.injEq] at hm hdecl
      obtain ⟨field, hfield, rfl, rfl⟩ := hm
      obtain ⟨f, hf, hdefault⟩ := hdecl.2 field hfield
      refine ⟨f, hf, ?_⟩
      cases hchoices : f.choices <;>
        simp [FieldSpec.allows, hchoices, hdefault, FieldValue.sameKind, FieldValue.string?]
    | _ => simp [hmut] at hm
  | variants field list =>
    cases m with
    | variant n =>
      simp only [hmut, Option.some.injEq, Prod.mk.injEq, decide_eq_true_eq] at hm hdecl ha
      obtain ⟨rfl, rfl⟩ := hm
      obtain ⟨f, hf, ⟨choices, hchoices, hall⟩, v, -, hdefault⟩ := hdecl
      obtain ⟨v', hv', rfl⟩ := List.mem_map.mp ha
      have hoffered := hall v' hv'
      rw [Option.mem_def] at hchoices
      exact ⟨f, hf, by
        simp [FieldSpec.allows, hchoices, hdefault, FieldValue.sameKind, FieldValue.string?, hoffered]⟩
    | _ => simp [hmut] at hm

/-- A mutation of the shape is shown by values that its fields may hold. -/
theorem fills_showMutation {fields : Fields} (ha : shape.accepts m) (hf : shape.Fills fields) :
    shape.Fills (Workspace.showMutation shape m fields) := by
  rw [showMutation_eq]
  cases hm : shape.mirror m with
  | none => exact hf
  | some entry =>
    obtain ⟨f, hspec, hallows⟩ := h.allows_mirror ha hm
    exact hf.insert hspec hallows

end Consistent

namespace Declared

variable (h : shape.Declared)
include h

theorem consistent : shape.Consistent := by
  refine ⟨h.names, h.defaults, ?_⟩
  have hdecl := h.mutator
  unfold MutatorDeclared at hdecl
  unfold MutatorConsistent
  cases hmut : shape.mutator with
  | fixed => trivial
  | branches => trivial
  | repeats spec =>
    rw [hmut] at hdecl
    refine ⟨hdecl.1, fun field hfield => ?_⟩
    obtain ⟨f, hf, -, hdefault⟩ := hdecl.2 field hfield
    exact ⟨f, hf, hdefault⟩
  | variants field list =>
    rw [hmut] at hdecl
    exact hdecl.2

theorem tokenable (ha : shape.accepts m) : m.Tokenable := by
  have hdecl := h.mutator
  unfold MutatorDeclared at hdecl
  unfold accepts at ha
  split at ha
  · trivial
  · simpa [Mutation.Tokenable] using ha
  · simpa [Mutation.Tokenable] using ha
  · rename_i list name hmut
    rw [hmut] at hdecl
    obtain ⟨v, hv, rfl⟩ := List.mem_map.mp (by simpa using ha : name ∈ variantNames list)
    exact hdecl.1 v hv
  · cases ha

theorem regular (m : Mutation) (ho : (shape.connectorsOf m).output) :
    (shape.connectorsOf m).next = false :=
  (h.expressions _ (shape.connectorsOf_mem_forms m) ho).2

end Declared

/-- Every event leads to a mutation that the shape accepts. -/
theorem accepts_of_requested {event : Mutation.Event} (hr : shape.requested m event = .ok m')
    (hfew : (shape.limitedUnits m').1 ≤ Mutation.maxUnits) : shape.accepts m' := by
  cases event with
  | setCount n =>
    unfold requested at hr
    dsimp only at hr
    split at hr
    · rename_i hmut
      cases hr
      simpa [limitedUnits, accepts, hmut] using hfew
    · rename_i hmut
      cases hr
      simpa [limitedUnits, accepts, hmut] using hfew
    · cases hr
  | setVariant name =>
    unfold requested at hr
    dsimp only at hr
    split at hr
    · rename_i list hmut
      split at hr
      · rename_i hname
        cases hr
        simpa [accepts, hmut] using hname
      · cases hr
    · cases hr
  | compose kinds =>
    have hunits := ofUnits_eq_ok.mp hr
    split at hunits
    · rename_i spec hmut
      obtain ⟨-, rfl⟩ := hunits
      simpa [limitedUnits, accepts, hmut] using hfew
    · rename_i hmut
      obtain ⟨-, -, rfl⟩ := hunits
      simpa [limitedUnits, accepts, hmut] using hfew
    · exact hunits.elim

end Shape

/-- Shapes over which every workspace can be written down and read back. -/
structure ShapeRegistry.Declared (registry : ShapeRegistry) : Prop where
  distinct : registry.Distinct
  shapes : ∀ shape ∈ registry.shapes, shape.Declared

theorem ShapeRegistry.Declared.consistent {registry : ShapeRegistry} (h : registry.Declared) :
    ∀ shape ∈ registry.shapes, shape.Consistent := fun shape hs => (h.shapes shape hs).consistent

end BlockProgram
