import BlockProgram.Proofs.Shape.Declared
import BlockProgram.Proofs.Shape.Layout

/-! Shapes that differ in the choices of their dropdowns and in variants, or in what their sockets accept and
show. Their blocks have the same sockets by name and kind, and a block whose choices are allowed by both is a
block of both. -/
namespace BlockProgram

/-- A field without its choices, if it is a dropdown. -/
def FieldSpec.unchosen (f : FieldSpec) : FieldSpec :=
  match f.default, f.choices with
  | .choice _, some _ => { f with default := .choice "", choices := some [] }
  | _, _ => f

namespace FieldSpec

variable {f g : FieldSpec} {v : FieldValue}

private theorem name_unchosen (f : FieldSpec) : f.unchosen.name = f.name := by
  unfold unchosen
  split <;> rfl

private theorem sameKind_unchosen (f : FieldSpec) (v : FieldValue) :
    f.unchosen.default.sameKind v = f.default.sameKind v := by
  unfold unchosen
  split
  · rename_i hd _
    rw [hd]
    cases v <;> rfl
  · rfl

private theorem unchosen_of_sameKind (hk : f.default.sameKind v) (hv : ∀ s, v ≠ .choice s) :
    f.unchosen = f := by
  unfold unchosen
  split
  · rename_i hd _
    rw [hd] at hk
    cases v with
    | choice s => exact (hv s rfl).elim
    | _ => cases hk
  · rfl

/-- A value that the one field allows is allowed by the other one if it is among its choices. -/
theorem allows_of_unchosen (he : g.unchosen = f.unchosen) (hv : g.allows v)
    (hc : ∀ choices ∈ f.choices, ∀ s, v = .choice s → s ∈ choices) : f.allows v := by
  have hg : g.default.sameKind v := (Bool.and_eq_true_iff.mp hv).1
  have hf : f.default.sameKind v := by rwa [← sameKind_unchosen, ← he, sameKind_unchosen]
  by_cases hchoice : ∃ s, v = .choice s
  · obtain ⟨s, rfl⟩ := hchoice
    refine Bool.and_eq_true_iff.mpr ⟨hf, ?_⟩
    cases hchoices : f.choices with
    | none => rfl
    | some choices => simpa [FieldValue.string?] using hc choices hchoices s rfl
  · have hplain := not_exists.mp hchoice
    rw [unchosen_of_sameKind hg hplain, unchosen_of_sameKind hf hplain] at he
    exact he ▸ hv

end FieldSpec

namespace Shape

/-- A shape without the choices of its dropdowns, without variants, and without the types and labels of its
sockets. -/
def unchosen (shape : Shape) : Shape :=
  { shape with
    fields := shape.fields.map FieldSpec.unchosen
    sockets := shape.sockets.map fun k => { name := k.name, kind := k.kind }
    mutator := match shape.mutator with
      | .variants field _ => .variants field []
      | other => other }

/-- A shape that differs from another one only in the choices of its dropdowns, in variants that the other one
does not have, and in the types and labels of its sockets. -/
structure Rechosen (shape other : Shape) : Prop where
  unchosen : shape.unchosen = other.unchosen
  connectors : ∀ name, shape.accepts (.variant name) → other.accepts (.variant name) →
    shape.connectorsOf (.variant name) = other.connectorsOf (.variant name)

variable {shape other : Shape} {m : Mutation} {fields : Fields} {name : String}

private theorem slots_unchosen (shape : Shape) (m : Mutation) : shape.unchosen.slots m = shape.slots m := by
  have hmutable : shape.unchosen.mutableSockets m = shape.mutableSockets m := by
    unfold mutableSockets unchosen
    cases shape.mutator <;> rfl
  unfold slots layout
  rw [hmutable, List.map_append, List.map_append]
  unfold unchosen
  simp only [List.map_map]
  rfl

/-- Choices do not matter for the mutations that a shape accepts, except for variants. -/
theorem accepts_unchosen (hm : ∀ name, m ≠ .variant name) :
    shape.unchosen.accepts m = shape.accepts m := by
  unfold accepts unchosen
  cases m with
  | variant name => exact (hm name rfl).elim
  | _ => cases shape.mutator <;> rfl

private theorem connectorsOf_of_ne (hm : ∀ name, m ≠ .variant name) :
    shape.connectorsOf m = shape.connectors := by
  cases m with
  | variant name => exact (hm name rfl).elim
  | _ => cases hmut : shape.mutator <;> simp [connectorsOf, hmut]

private theorem fieldSpec?_unchosen (shape : Shape) (name : String) :
    shape.unchosen.fieldSpec? name = (shape.fieldSpec? name).map FieldSpec.unchosen := by
  unfold fieldSpec? unchosen
  rw [List.find?_map]
  simp only [Function.comp_def, FieldSpec.name_unchosen]

namespace Rechosen

theorem refl (shape : Shape) : shape.Rechosen shape := ⟨rfl, fun _ _ _ => rfl⟩

theorem symm (h : shape.Rechosen other) : other.Rechosen shape :=
  ⟨h.unchosen.symm, fun name ha ho => (h.connectors name ho ha).symm⟩

variable (h : shape.Rechosen other)
include h

theorem type_eq : shape.type = other.type := by
  have htype : shape.unchosen.type = other.unchosen.type := by rw [h.unchosen]
  exact htype

theorem slots_eq (m : Mutation) : shape.slots m = other.slots m := by
  rw [← slots_unchosen, h.unchosen, slots_unchosen]

/-- A shape that differs in its choices repeats no socket name either. -/
theorem distinct (ho : other.Distinct) : shape.Distinct := by
  have hnames (shape : Shape) (m : Mutation) :
      (shape.layout m).map (·.name) = (shape.slots m).map Prod.fst := by
    unfold slots
    rw [List.map_map]
    rfl
  intro m
  rw [hnames, h.slots_eq, ← hnames]
  exact ho m

theorem accepts (ha : shape.accepts m) (hv : ∀ name, m = .variant name → other.accepts m) :
    other.accepts m := by
  by_cases hvariant : ∃ name, m = .variant name
  · obtain ⟨name, rfl⟩ := hvariant
    exact hv name rfl
  · have hplain := not_exists.mp hvariant
    rwa [← accepts_unchosen hplain, h.unchosen, accepts_unchosen hplain] at ha

theorem connectorsOf_eq (ha : shape.accepts m) (ho : other.accepts m) :
    shape.connectorsOf m = other.connectorsOf m := by
  by_cases hvariant : ∃ name, m = .variant name
  · obtain ⟨name, rfl⟩ := hvariant
    exact h.connectors name ha ho
  · have hplain := not_exists.mp hvariant
    have hconnectors : shape.unchosen.connectors = other.unchosen.connectors := by rw [h.unchosen]
    rw [connectorsOf_of_ne hplain, connectorsOf_of_ne hplain]
    exact hconnectors

/-- Variants stay variants of the same field. -/
theorem exists_variants {list : List VariantSpec} (hm : shape.mutator = .variants name list) :
    ∃ list', other.mutator = .variants name list' := by
  have hunchosen : shape.unchosen.mutator = other.unchosen.mutator := by rw [h.unchosen]
  unfold Shape.unchosen at hunchosen
  rw [hm] at hunchosen
  cases hm' : other.mutator with
  | variants name' list' =>
    rw [hm'] at hunchosen
    obtain ⟨rfl, -⟩ := Mutator.variants.inj hunchosen
    exact ⟨list', rfl⟩
  | _ =>
    rw [hm'] at hunchosen
    cases hunchosen

theorem fills (hf : shape.Fills fields)
    (hc : ∀ name, ∀ f ∈ other.fieldSpec? name, ∀ choices ∈ f.choices, ∀ s,
      fields.get? name = some (.choice s) → s ∈ choices) : other.Fills fields := by
  intro name
  have hrel := hf name
  have hspec : (shape.fieldSpec? name).map FieldSpec.unchosen =
      (other.fieldSpec? name).map FieldSpec.unchosen := by
    rw [← fieldSpec?_unchosen, h.unchosen, fieldSpec?_unchosen]
  have hc := hc name
  generalize fields.get? name = value at hrel hc ⊢
  generalize shape.fieldSpec? name = g at hrel hspec
  generalize other.fieldSpec? name = f at hspec hc ⊢
  cases hrel with
  | none =>
    obtain rfl : f = none := by simpa using hspec.symm
    exact .none
  | @some v g hv =>
    obtain ⟨f, rfl, he⟩ := Option.map_eq_some_iff.mp hspec.symm
    refine .some (FieldSpec.allows_of_unchosen he.symm hv fun choices hchoices s hs => ?_)
    exact hc f rfl choices hchoices s (congrArg some hs)

/-- What is a dropdown of the one shape is one of the other. -/
theorem exists_choice (hf : shape.Fills fields) {known : List String}
    (ho : other.fieldSpec? name = some (.dropdown name known)) :
    ∃ s, fields.get? name = some (.choice s) := by
  have hspec : (shape.fieldSpec? name).map FieldSpec.unchosen =
      some (FieldSpec.dropdown name known).unchosen := by
    rw [← fieldSpec?_unchosen, h.unchosen, fieldSpec?_unchosen, ho]
    rfl
  obtain ⟨g, hg, he⟩ := Option.map_eq_some_iff.mp hspec
  obtain ⟨v, hv, hallows⟩ := hf.exists_value hg
  have hkind := (Bool.and_eq_true_iff.mp hallows).1
  rw [← FieldSpec.sameKind_unchosen, he, FieldSpec.sameKind_unchosen] at hkind
  cases v with
  | choice s => exact ⟨s, hv⟩
  | _ => cases hkind

end Rechosen

end Shape

end BlockProgram
