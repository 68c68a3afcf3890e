import BlockProgram.Proofs.Workspace.Contents
import BlockProgram.Proofs.Workspace.Refusal
import BlockProgram.Proofs.Workspace.Valid

/-! A satellite that stays open while its workspace is edited. Its units keep to the limits of the shape and no
number is used again, so the satellite can be composed for as long as its owner is there. -/
namespace BlockProgram

open Edit Workspace

namespace Satellite

/-- What can be done to a satellite. -/
inductive Change where
  | push (kind : String)
  | insert (index : Nat) (kind : String)
  | remove (index : Nat)
  | move (start goal : Nat)
  | save
  deriving DecidableEq, Repr

def changed (s : Satellite) (w : Workspace) : Change → Satellite
  | .push kind => (s.push kind).toOption.getD s
  | .insert index kind => (s.insert index kind).toOption.getD s
  | .remove index => (s.remove index).2
  | .move start goal => (s.move? start goal).getD s
  | .save => ((saveConnections s).perform w).1.toOption.getD s

end Satellite

open Satellite

/-- A satellite of the block `id`, and the workspace that it was taken from, after any edits of both. Other
satellites are composed only if their connections were saved after the last edit of the workspace. The states
that the satellite has had before are `past`. -/
inductive Tended (shapes : ShapeRegistry) (id : BlockId) :
    Workspace → Satellite → List Satellite → Prop where
  | taken {w : Workspace} {s : Satellite} (hw : Edited shapes w)
      (hs : ((decompose id).perform w).1 = .ok s) : Tended shapes id w s []
  | act {w : Workspace} {s : Satellite} {past : List Satellite} (h : Tended shapes id w s past)
      (a : Action) : Tended shapes id (a.apply w) s past
  | compose {w : Workspace} {s t t₁ t₂ : Satellite} {past : List Satellite}
      (h : Tended shapes id w s past) (ht : ((saveConnections t).perform w).1 = .ok t₁)
      (hr : t₁.Rearranged t₂) : Tended shapes id ((Workspace.compose t₂).perform w).2 s past
  | change {w : Workspace} {s : Satellite} {past : List Satellite} (h : Tended shapes id w s past)
      (c : Change) : Tended shapes id w (s.changed w c) (s :: past)

/-- What holds of an open satellite at any time. -/
structure Satellite.Tidy (s : Satellite) (past : List Satellite) (shape : Shape) (id : BlockId)
    (w : Workspace) : Prop where
  owner : s.owner = id
  numbers : (s.units.map (·.number)).Nodup
  /-- A unit was there before a change, or has a number that never was in use. -/
  unused : ∀ c, ∀ u ∈ (s.changed w c).units,
    (∃ v ∈ s.units, v.number = u.number ∧ v.kind = u.kind) ∨
      ∀ t ∈ s :: past, ∀ v ∈ t.units, v.number ≠ u.number
  accepted : ∀ kind ∈ s.kinds, ∃ p ∈ shape.placeholders, p.kind = kind
  few : ∀ kind, s.kinds.count kind ≤ Mutation.maxUnits
  elseOnce : s.kinds.count Shape.elseUnit ≤ 1
  /-- There is room for another unit unless the limits of its kind would be broken. -/
  room : ∀ index kind, (∃ t, s.insert index kind = .ok t) ↔ shape.Allows (kind :: s.kinds)
  refused : ∀ kind err, (s.push kind = .error err → s.changed w (.push kind) = s) ∧
    ∀ index, s.insert index kind = .error err → s.changed w (.insert index kind) = s
  /-- The owner takes the structure of the units if it still is a block of the type. -/
  composed : ∀ b, w.find? id = some b → b.type = s.type → ∃ m w',
    shape.ofUnits s.kinds = .ok m ∧
      (Workspace.compose s).perform w = (.ok (.between shape b.mutation m), w')

theorem Shape.Allows.count_le {shape : Shape} {kinds : List String} (h : shape.Allows kinds)
    (kind : String) : kinds.count kind = 0 ∨
      ∃ p, shape.placeholders.find? (fun p => p.kind = kind) = some p ∧
        kinds.count kind ≤ min (p.max.getD Mutation.maxUnits) Mutation.maxUnits := by
  by_cases hk : kind ∈ kinds
  · exact .inr (h kind hk)
  · exact .inl (List.count_eq_zero_of_not_mem hk)

namespace Satellite

variable {s : Satellite} {w : Workspace} {c : Change}

private theorem rearranged_of_ok {ε : Type} {result : Except ε Satellite}
    (h : ∀ t, result = .ok t → s.Rearranged t) : s.Rearranged (result.toOption.getD s) := by
  cases result with
  | error => exact .refl
  | ok t => exact h t rfl

/-- A change rearranges units or notes what they hold. -/
theorem changed_cases (s : Satellite) (w : Workspace) (c : Change) :
    s.Rearranged (s.changed w c) ∨ ∃ b shape, s.changed w c = s.saved shape b := by
  cases c with
  | push kind => exact .inl (rearranged_of_ok fun _ => .push .refl)
  | insert index kind => exact .inl (rearranged_of_ok fun _ => .insert .refl)
  | remove index => exact .inl (.remove .refl index)
  | move start goal =>
    left
    unfold changed
    dsimp only
    cases ht : s.move? start goal with
    | none => exact .refl
    | some t => exact .move .refl ht
  | save =>
    unfold changed
    dsimp only
    cases ht : ((saveConnections s).perform w).1 with
    | error => exact .inl .refl
    | ok t =>
      obtain ⟨b, shape, -, -, rfl⟩ := saveConnections_eq_ok ht
      exact .inr ⟨b, shape, rfl⟩

/-- What holds of an open satellite and is kept by every change. -/
private structure Orderly (s : Satellite) (past : List Satellite) (shape : Shape) (id : BlockId) :
    Prop where
  owner : s.owner = id
  type : s.type = shape.type
  composable : shape.placeholders ≠ []
  allowed : s.allowed = shape.placeholders
  allows : shape.Allows s.kinds
  numbers : s.WellNumbered
  past : ∀ t ∈ past, ∀ u ∈ t.units, u.number < s.nextNumber

variable {past : List Satellite} {shape : Shape} {id : BlockId}

private theorem Orderly.older (h : s.Orderly past shape id) :
    ∀ t ∈ s :: past, ∀ u ∈ t.units, u.number < s.nextNumber :=
  List.forall_mem_cons.mpr ⟨h.numbers.old, h.past⟩

private theorem Orderly.changed (h : s.Orderly past shape id) (w : Workspace) (c : Change) :
    (s.changed w c).Orderly (s :: past) shape id := by
  obtain hr | ⟨b, other, he⟩ := changed_cases s w c
  · exact {
      owner := hr.owner.trans h.owner
      type := hr.type.trans h.type
      composable := h.composable
      allowed := hr.allowed.trans h.allowed
      allows := hr.allows h.allowed h.allows
      numbers := hr.wellNumbered h.numbers
      past := fun t ht u hu => Nat.lt_of_lt_of_le (h.older t ht u hu) hr.units.1 }
  · rw [he]
    exact {
      owner := h.owner
      type := h.type
      composable := h.composable
      allowed := h.allowed
      allows := (kinds_saved s other b).symm ▸ h.allows
      numbers := h.numbers.saved other b
      past := h.older }

/-- A change takes units from those that there are, and gives new ones numbers of their own. -/
theorem units_changed (s : Satellite) (w : Workspace) (c : Change) :
    ∀ u ∈ (s.changed w c).units, (∃ v ∈ s.units, v.number = u.number ∧ v.kind = u.kind) ∨
      s.nextNumber ≤ u.number := by
  intro u hu
  obtain hr | ⟨b, other, he⟩ := changed_cases s w c
  · exact (hr.units.2 u hu).imp (fun hold => ⟨u, hold, rfl, rfl⟩) (·.1)
  · left
    rw [he] at hu
    have hmap : (s.saved other b).units.map (fun u => (u.number, u.kind)) =
        s.units.map fun u => (u.number, u.kind) :=
      map_savedUnits (fun _ _ => rfl) s.units (other.unitSocketNames s.kinds)
    obtain ⟨v, hv, heq⟩ := List.mem_map.mp (hmap ▸ List.mem_map_of_mem hu)
    exact ⟨v, hv, Prod.mk.inj heq⟩

/-- A unit finds room exactly if the units are still allowed with it. -/
theorem insert_ok_iff (hallowed : s.allowed = shape.placeholders) (h : shape.Allows s.kinds)
    {index : Nat} {kind : String} :
    (∃ t, s.insert index kind = .ok t) ↔ shape.Allows (kind :: s.kinds) := by
  constructor
  · rintro ⟨t, ht⟩
    have hallows := (Rearranged.insert .refl ht).allows hallowed h
    obtain ⟨p, -, -, rfl⟩ := insert_eq_ok.mp ht
    have hperm := (List.perm_insertIdx (⟨s.nextNumber, kind, []⟩ : SatelliteUnit) s.units
      (Nat.min_le_right index _)).symm.map SatelliteUnit.kind
    exact hallows.mono (show (kind :: s.kinds).Subperm _ from hperm.subperm)
  · intro hallows
    obtain ⟨p, hp, hcount⟩ := hallows kind (List.mem_cons_self ..)
    rw [List.count_cons_self, count_kinds] at hcount
    exact ⟨_, insert_eq_ok.mpr ⟨p, hallowed ▸ hp, hcount, rfl⟩⟩

end Satellite

namespace Workspace

variable {w : Workspace} {s : Satellite} {id : BlockId} {b : Block} {shape : Shape}
  {shapes : ShapeRegistry} {past : List Satellite}

/-- Only a block whose shape has units is taken apart. -/
theorem decompose_eq_ok (h : ((decompose id).perform w).1 = .ok s) :
    ∃ b shape, w.find? id = some b ∧ w.shapes.get? b.type = some shape ∧
      shape.placeholders ≠ [] ∧ s.type = b.type := by
  have he : (decompose id).Ensures w (fun s _ => ∃ b shape, w.find? id = some b ∧
      w.shapes.get? b.type = some shape ∧ shape.placeholders ≠ [] ∧ s.type = b.type)
      fun _ _ => True := by
    unfold decompose
    rw [ensures_bind, ensures_refusedAs, ensures_require]
    cases hb : w.find? id with
    | none => trivial
    | some b =>
      dsimp only
      rw [ensures_bind, ensures_refusedAs, ensures_requireShape]
      cases hshape : w.shapes.get? b.type with
      | none => trivial
      | some shape =>
        dsimp only
        split
        · trivial
        · rename_i hne
          exact ⟨b, shape, rfl, hshape, by simpa using hne, rfl⟩
  exact he.of_ok (Prod.ext h rfl)

private theorem orderly_of_decompose (hd : shapes.Declared) (hw : Edited shapes w)
    (h : ((decompose id).perform w).1 = .ok s) :
    ∃ shape, shapes.get? s.type = some shape ∧ s.Orderly [] shape id := by
  obtain ⟨b, shape, hb, hshape, hne, htype⟩ := decompose_eq_ok h
  have hvalid := hw.valid hd
  obtain ⟨shape', hshape', ha, -⟩ := hvalid.blocks b (mem_of_find? hb).1
  rw [← hvalid.shapes, hshape] at hshape'
  obtain rfl := Option.some.inj hshape'
  obtain ⟨t, ht, howner, hs⟩ := decompose_standsFor hb hshape (Shape.ofUnits_unitsOf hne ha)
  obtain rfl := Except.ok.inj (h.symm.trans (congrArg Prod.fst ht))
  have hallows : shape.Allows s.kinds := (Shape.allows_iff hne).mpr
    ⟨b.mutation, hs.units, (Shape.accepts_of_ofUnits hs.units).mp ha⟩
  exact ⟨shape, by rw [htype, ← hvalid.shapes, hshape], {
    owner := howner
    type := htype.trans (ShapeRegistry.mem_of_get? hshape).2.symm
    composable := hne
    allowed := hs.allowed
    allows := hallows
    numbers := hs.numbers
    past := by simp }⟩

private theorem orderly_of_tended (hd : shapes.Declared) (h : Tended shapes id w s past) :
    Edited shapes w ∧ ∃ shape, shapes.get? s.type = some shape ∧ s.Orderly past shape id := by
  induction h with
  | taken hw hs => exact ⟨hw, orderly_of_decompose hd hw hs⟩
  | act _ a ih => exact ⟨.act ih.1 a, ih.2⟩
  | compose _ ht hr ih => exact ⟨.compose ih.1 ht hr, ih.2⟩
  | @change w s past _ c ih =>
    obtain ⟨hw, shape, hshape, ho⟩ := ih
    have ho' := ho.changed w c
    exact ⟨hw, shape, by rw [ho'.type, ← ho.type, hshape], ho'⟩

/-- Satellites of allowed units can be composed in any forest, whatever they have saved. -/
theorem compose_of_orderly (hd : shapes.Declared) (hw : Edited shapes w)
    (hshape : shapes.get? s.type = some shape) (ho : s.Orderly past shape id)
    (hb : w.find? id = some b) (htype : b.type = s.type) : ∃ m w', shape.ofUnits s.kinds = .ok m ∧
      (compose s).perform w = (.ok (.between shape b.mutation m), w') := by
  have h : Sound True False w := hw.sound hd.distinct False.elim
  have hvalid := hw.valid hd
  rw [← hvalid.shapes, ← htype] at hshape
  obtain ⟨shape', hshape', ha, -⟩ := hvalid.blocks b (mem_of_find? hb).1
  rw [← hvalid.shapes, hshape] at hshape'
  obtain rfl := Option.some.inj hshape'
  obtain ⟨m, hm, hfew⟩ := (Shape.allows_iff ho.composable).mp ho.allows
  have howner : w.find? s.owner = some b := by rw [ho.owner, hb]
  have hc : Composable s w b shape m := ⟨howner, hshape, hm, ha, hfew⟩
  have htrans : shape.transition b.mutation (.compose s.kinds) = .ok (m, .between shape b.mutation m) :=
    Shape.transition_eq_ok.mpr ⟨ha, hm, hfew, rfl⟩
  have he : (compose s).Ensures w (fun diff _ => diff = .between shape b.mutation m)
      fun _ _ => False := by
    rw [ensures_compose_iff howner hshape fun u hu =>
      Shape.exists_placeholder_of_ofUnits hm u.kind (List.mem_map_of_mem hu), htrans]
    exact (h.ensures_replant_forest hc).mono (fun _ _ _ => rfl) fun _ _ h' => h'
  obtain ⟨_, w', he, rfl⟩ := he.exists_ok
  exact ⟨m, w', hm, he⟩

end Workspace

private theorem else_limited : ∀ shape ∈ Python.standard.shapes.shapes, ∀ p ∈ shape.placeholders,
    p.kind = Shape.elseUnit → p.max = some 1 := by
  decide +kernel

/-- However a satellite and its workspace are edited, its units stay within the limits and keep numbers of
their own, and composing it is not refused while its owner is there. -/
theorem Tended.tidy {id : BlockId} {w : Workspace} {s : Satellite} {past : List Satellite}
    (h : Tended Python.standard.shapes id w s past) :
    ∃ shape, Python.standard.shapes.get? s.type = some shape ∧ s.Tidy past shape id w := by
  have hd := Python.standard_declared
  obtain ⟨hw, shape, hshape, ho⟩ := orderly_of_tended hd h
  refine ⟨shape, hshape, {
    owner := ho.owner
    numbers := ho.numbers.nodup
    unused := fun c u hu => ?_
    accepted := fun kind hk => ?_
    few := fun kind => ?_
    elseOnce := ?_
    room := fun _ _ => insert_ok_iff ho.allowed ho.allows
    refused := fun kind err => ⟨fun he => ?_, fun index he => ?_⟩
    composed := fun b hb htype => compose_of_orderly hd hw hshape ho hb htype }⟩
  · refine (units_changed s w c u hu).imp_right fun hnew t ht v hv => ?_
    have := ho.older t ht v hv
    omega
  · obtain ⟨p, hp, -⟩ := ho.allows kind hk
    exact ⟨p, List.mem_of_find?_eq_some hp, by simpa using List.find?_some hp⟩
  · obtain hcount | ⟨p, -, hcount⟩ := ho.allows.count_le kind
    · omega
    · exact Nat.le_trans hcount (Nat.min_le_right _ _)
  · obtain hcount | ⟨p, hp, hcount⟩ := ho.allows.count_le Shape.elseUnit
    · omega
    · have hone := else_limited shape (ShapeRegistry.mem_of_get? hshape).1 p
        (List.mem_of_find?_eq_some hp) (by simpa using List.find?_some hp)
      rw [hone] at hcount
      exact Nat.le_trans hcount (Nat.min_le_left _ _)
  · simp [changed, he, Except.toOption]
  · simp [changed, he, Except.toOption]

/-- What a unit has saved is deleted, one unit is put in and another one is taken out. -/
theorem Tended.tidy_of_deleted :
    let w := [Action.add ⟨"list"⟩ "lists_create_with" false, .add ⟨"one"⟩ "math_number" false,
      .connectValue ⟨"list"⟩ "ITEM1" ⟨"one"⟩].foldl Action.apply (.empty Python.standard.shapes)
    let unit (n : Nat) : SatelliteUnit := ⟨n, "lists_create_with_item", []⟩
    let s₀ : Satellite := ⟨⟨"list"⟩, "lists_create_with", [⟨"lists_create_with_item", none⟩],
      [unit 0, unit 1, unit 2], 3⟩
    let s₁ := s₀.changed w .save
    let w' := (Action.delete ⟨"one"⟩ false).apply w
    let s₂ := s₁.changed w' (.push "lists_create_with_item")
    let s₃ := s₂.changed w' (.remove 0)
    Tended Python.standard.shapes ⟨"list"⟩ w' s₃ [s₂, s₁, s₀] ∧
    (∃ shape, Python.standard.shapes.get? s₃.type = some shape ∧
      s₃.Tidy [s₂, s₁, s₀] shape ⟨"list"⟩ w') ∧
    s₃.units.map (·.number) = [1, 2, 3] ∧
    ((Workspace.compose s₃).perform w').1 = .ok {
      removed := [], added := [], kept := ["ITEM0", "ITEM1", "ITEM2"]
      connectorsChanged := false } := by
  intro w unit s₀ s₁ w' s₂ s₃
  have hw : Edited Python.standard.shapes w := Edited.empty.run _
  have htaken : Tended Python.standard.shapes ⟨"list"⟩ w s₀ [] := .taken hw (by decide +kernel)
  have htended : Tended Python.standard.shapes ⟨"list"⟩ w' s₃ [s₂, s₁, s₀] :=
    (((htaken.change .save).act (.delete ⟨"one"⟩ false)).change (.push "lists_create_with_item")).change
      (.remove 0)
  exact ⟨htended, Tended.tidy htended, by decide +kernel, by decide +kernel⟩

end BlockProgram
