import BlockProgram.Proofs.Workspace.Satellite
import BlockProgram.Proofs.Workspace.Transplant

/-! What the units of a satellite hold. While the satellite stands for its owner every unit has sockets
there, so a block that is plugged into one of them is known by the number of the unit and the place of
the socket; that pair is what saved connections keep through all edits of units. -/
namespace BlockProgram

namespace Satellite

/-- What the sockets of the unit of a number hold in a block. -/
def contents (s : Satellite) (shape : Shape) (b : Block) (number : Nat) : List (Option BlockId) :=
  match s.position? number with
  | some i => ((shape.unitSocketNames s.kinds).getD i []).map b.target?
  | none => []

/-- The units of a satellite describe the mutation of its owner. -/
structure StandsFor (s : Satellite) (w : Workspace) (b : Block) (shape : Shape) : Prop where
  owner : w.find? s.owner = some b
  known : w.shapes.get? b.type = some shape
  units : shape.ofUnits s.kinds = .ok b.mutation
  allowed : s.allowed = shape.placeholders
  numbers : s.WellNumbered

variable {s t : Satellite} {shape : Shape} {b : Block} {w : Workspace} {u v : SatelliteUnit}
  {m : Mutation}  {i j q q' number number' : Nat} {l : List String} {n : String} {c : BlockId}
  {content : Option BlockId}

private theorem position?_eq_some (h : s.WellNumbered) :
    s.position? number = some i ↔ ∃ u, s.units[i]? = some u ∧ u.number = number := by
  unfold position?
  rw [List.findIdx?_eq_some_iff_getElem]
  constructor
  · rintro ⟨hi, hn, -⟩
    exact ⟨s.units[i], List.getElem?_eq_getElem hi, by simpa using hn⟩
  · rintro ⟨u, hu, hn⟩
    obtain ⟨hi, rfl⟩ := List.getElem?_eq_some_iff.mp hu
    refine ⟨hi, by simpa using hn, fun j hj hj' => ?_⟩
    have hlt : j < s.units.length := by omega
    have he : (s.units.map (·.number))[j]? = (s.units.map (·.number))[i]? := by
      simpa [List.getElem?_eq_getElem hlt, List.getElem?_eq_getElem hi, hn] using hj'
    exact absurd ((List.getElem?_inj (by simpa using hlt) h.nodup).mp he) (by omega)

/-- Units of the same number are one. -/
theorem WellNumbered.eq_of_number (h : s.WellNumbered) (hu : s.units[i]? = some u)
    (hv : s.units[j]? = some v) (he : u.number = v.number) : i = j ∧ u = v := by
  have hi := (position?_eq_some h).mpr ⟨u, hu, rfl⟩
  have hj := (position?_eq_some h).mpr ⟨v, hv, he.symm⟩
  obtain rfl := Option.some.inj (hi.symm.trans hj)
  exact ⟨rfl, Option.some.inj (hu.symm.trans hv)⟩

theorem contents_eq (h : s.WellNumbered) (hu : s.units[i]? = some u)
    (hl : (shape.unitSocketNames s.kinds)[i]? = some l) :
    s.contents shape b u.number = l.map b.target? := by
  unfold contents
  simp [(position?_eq_some h).mpr ⟨u, hu, rfl⟩, hl]

/-- A number that no unit has holds nothing. -/
theorem contents_eq_nil (h : s.WellNumbered) (hnone : ∀ u ∈ s.units, u.number ≠ number) :
    s.contents shape b number = [] := by
  unfold contents
  cases hp : s.position? number with
  | none => rfl
  | some i =>
    obtain ⟨u, hu, hn⟩ := (position?_eq_some h).mp hp
    exact absurd hn (hnone u (List.mem_of_getElem? hu))

theorem exists_names (hm : shape.ofUnits s.kinds = .ok m) (hu : s.units[i]? = some u) :
    ∃ l, (shape.unitSocketNames s.kinds)[i]? = some l := by
  have hlen := length_names (s := s) (Shape.placeholders_ne_of_ofUnits hm)
  exact ⟨_, List.getElem?_eq_getElem (hlen ▸ (List.getElem?_eq_some_iff.mp hu).1)⟩

theorem getElem?_contents (h : s.WellNumbered) (hm : shape.ofUnits s.kinds = .ok m) :
    (s.contents shape b number)[q]? = some content ↔
      ∃ (i : Nat) (u : SatelliteUnit) (l : List String) (n : String), s.units[i]? = some u ∧
        u.number = number ∧ (shape.unitSocketNames s.kinds)[i]? = some l ∧ l[q]? = some n ∧
        b.target? n = content := by
  constructor
  · intro hc
    by_cases hnone : ∀ u ∈ s.units, u.number ≠ number
    · simp [contents_eq_nil h hnone] at hc
    obtain ⟨u, hu, rfl⟩ : ∃ u ∈ s.units, u.number = number := by simpa using hnone
    obtain ⟨i, hi⟩ := List.mem_iff_getElem?.mp hu
    obtain ⟨l, hl⟩ := exists_names hm hi
    rw [contents_eq h hi hl, List.getElem?_map, Option.map_eq_some_iff] at hc
    obtain ⟨n, hn, ht⟩ := hc
    exact ⟨i, u, l, n, hi, rfl, hl, hn, ht⟩
  · rintro ⟨i, u, l, n, hi, rfl, hl, hn, rfl⟩
    rw [contents_eq h hi hl, List.getElem?_map, hn]
    rfl

open Workspace

/-- Every unit has saved what the unit of its number holds, which is nothing if the unit is new. -/
theorem StandsFor.saved_eq (hs : s.StandsFor w b shape) (hr : (s.saved shape b).Rearranged t)
    (hu : u ∈ t.units) : u.saved = s.contents shape b u.number ∧
      ((∃ v ∈ s.units, v.number = u.number ∧ v.kind = u.kind) ∨ s.nextNumber ≤ u.number) := by
  rcases saved_unit (Shape.placeholders_ne_of_ofUnits hs.units) hr hu with
    ⟨i, v, l, hv, hl, rfl⟩ | ⟨hnew, hnone⟩
  · exact ⟨(contents_eq hs.numbers hv hl).symm, .inl ⟨v, List.mem_of_getElem? hv, rfl, rfl⟩⟩
  · refine ⟨?_, .inr hnew⟩
    rw [hnone, contents_eq_nil hs.numbers fun v hv he => ?_]
    have := hs.numbers.old v hv
    omega

/-- A unit has as many sockets wherever it stands. -/
theorem StandsFor.length_contents (hs : s.StandsFor w b shape)
    (hr : (s.saved shape b).Rearranged t) (hv : v ∈ s.units) (hn : v.number = u.number)
    (hu : t.units[j]? = some u) (hl : (shape.unitSocketNames t.kinds)[j]? = some l) :
    (s.contents shape b u.number).length = l.length := by
  rcases (hs.saved_eq hr (List.mem_of_getElem? hu)).2 with ⟨v', hv', hn', hk⟩ | hnew
  · obtain ⟨i, hi⟩ := List.mem_iff_getElem?.mp hv'
    obtain ⟨l', hl'⟩ := exists_names hs.units hi
    have hkind : t.kinds[j]? = some u.kind := by simp [kinds, hu]
    have hkind' : s.kinds[i]? = some u.kind := by simp [kinds, hi, hk]
    have hlen := Shape.length_unit hkind hl
    have hlen' := Shape.length_unit hkind' hl'
    rw [← hn', contents_eq hs.numbers hi hl', List.length_map, hlen', hlen]
  · have := hs.numbers.old v hv
    omega

/-- A socket of a rearranged unit is given what the unit held in that place when it was saved. -/
theorem StandsFor.mem_slots (hs : s.StandsFor w b shape) (hr : (s.saved shape b).Rearranged t) :
    (n, content) ∈ slots t.units (shape.unitSocketNames t.kinds) ↔
      ∃ (j q : Nat) (u : SatelliteUnit) (l : List String), t.units[j]? = some u ∧
        (shape.unitSocketNames t.kinds)[j]? = some l ∧ l[q]? = some n ∧
        (s.contents shape b u.number)[q]? = some content := by
  rw [Workspace.mem_slots]
  constructor
  · rintro ⟨j, q, u, l, hu, hl, hq, hc⟩
    rw [(hs.saved_eq hr (List.mem_of_getElem? hu)).1] at hc
    exact ⟨j, q, u, l, hu, hl, hq, hc⟩
  · rintro ⟨j, q, u, l, hu, hl, hq, hc⟩
    rw [← (hs.saved_eq hr (List.mem_of_getElem? hu)).1] at hc
    exact ⟨j, q, u, l, hu, hl, hq, hc⟩

/-- Units keep their numbers when they note what they hold. -/
theorem WellNumbered.saved (h : s.WellNumbered) (shape : Shape) (b : Block) :
    (s.saved shape b).WellNumbered := by
  have hmap := numbers_saved s shape b
  refine ⟨hmap ▸ h.nodup, fun u hu => ?_⟩
  obtain ⟨v, hv, he⟩ := List.mem_map.mp (hmap ▸ List.mem_map_of_mem hu :
    u.number ∈ s.units.map (·.number))
  exact he ▸ h.old v hv

theorem StandsFor.wellNumbered_saved (hs : s.StandsFor w b shape) :
    (s.saved shape b).WellNumbered := hs.numbers.saved shape b

theorem StandsFor.known_units (hs : s.StandsFor w b shape) (hr : (s.saved shape b).Rearranged t) :
    ∀ u ∈ t.units, ∃ p ∈ shape.placeholders, p.kind = u.kind := by
  have hallowed : t.allowed = shape.placeholders := hr.allowed.trans hs.allowed
  rw [← hallowed]
  refine hr.known fun u hu => ?_
  have hk : u.kind ∈ s.kinds := kinds_saved s shape b ▸ List.mem_map_of_mem hu
  obtain ⟨p, hp, he⟩ := Shape.exists_placeholder_of_ofUnits hs.units u.kind hk
  exact ⟨p, hs.allowed.symm ▸ hp, he⟩

/-- Edits of units keep to the limits of the shape, so what they lead to can be composed. -/
theorem StandsFor.composable (hs : s.StandsFor w b shape)
    (hr : (s.saved shape b).Rearranged t) (ha : shape.accepts b.mutation) :
    ∃ m, Composable t w b shape m := by
  have hne := Shape.placeholders_ne_of_ofUnits hs.units
  have hallows : shape.Allows t.kinds := hr.allows hs.allowed <| (kinds_saved s shape b).symm ▸
    (Shape.allows_iff hne).mpr ⟨b.mutation, hs.units, (Shape.accepts_of_ofUnits hs.units).mp ha⟩
  obtain ⟨m, hm, hfew⟩ := (Shape.allows_iff hne).mp hallows
  exact ⟨m, hr.owner ▸ hs.owner, hs.known, hm, ha, hfew⟩

end Satellite

namespace Workspace

open Edit Satellite

variable {rooted typed : Prop} {w : Workspace} {s t : Satellite} {shape : Shape} {b : Block}
  {u : SatelliteUnit} {j q q' number number' : Nat} {l : List String} {n : String} {c : BlockId}

/-- A block is in one socket of one unit. -/
theorem Linked.contents_inj (h : w.Linked) (hd : shape.Distinct) (hs : s.StandsFor w b shape)
    (hc : (s.contents shape b number)[q]? = some (some c))
    (hc' : (s.contents shape b number')[q']? = some (some c)) : number = number' ∧ q = q' := by
  obtain ⟨i, u, l, n, hu, rfl, hl, hq, ht⟩ :=
    (getElem?_contents hs.numbers hs.units).mp hc
  obtain ⟨i', u', l', n', hu', rfl, hl', hq', ht'⟩ :=
    (getElem?_contents hs.numbers hs.units).mp hc'
  have hp := (h.link (.input s.owner n) c).mp (by simp [occupant?, hs.owner, ht])
  have hp' := (h.link (.input s.owner n') c).mp (by simp [occupant?, hs.owner, ht'])
  obtain rfl := (Attachment.input.inj (Option.some.inj (hp.symm.trans hp'))).2
  obtain ⟨rfl, rfl⟩ := hd.unit_of_name hs.units hl hq hl' hq'
  obtain rfl := Option.some.inj (hu.symm.trans hu')
  exact ⟨rfl, rfl⟩

/-- What the structural sockets of a block hold is what the units hold: a label holds nothing. -/
theorem Sound.mem_unitTargets (h : Sound rooted typed w) (hs : s.StandsFor w b shape) :
    c ∈ b.unitTargets ↔ ∃ u ∈ s.units, some c ∈ s.contents shape b u.number := by
  have hd := h.distinct shape (ShapeRegistry.mem_of_get? hs.known).1
  have hlayout := (h.layout hs.owner hs.known).1
  constructor
  · intro hc
    obtain ⟨k, hk, hstruct, hp⟩ := (h.linked.mem_unitTargets hs.owner).mp hc
    obtain ⟨above, k', d, ha, hfound, -, hplain, -⟩ := h.fits _ _ hp
    obtain rfl := eq_bare_of_find? hs.owner ha
    have hk' : k' = k.emptied := by
      rw [Block.socket?_bare, Block.socket?_of_mem (h.linked.socket_names hs.owner) hk] at hfound
      exact (Option.some.inj hfound).symm
    have hmem : k.emptied ∈ shape.mutableSockets b.mutation := by
      rcases Shape.mem_layout.mp (hlayout ▸ List.mem_map_of_mem hk :
        k.emptied ∈ shape.layout b.mutation) with ⟨spec, -, he⟩ | hm
      · rw [show k.structural = k.emptied.structural from rfl, ← he] at hstruct
        cases hstruct
      · exact hm
    obtain ⟨l, hl, hn⟩ := List.mem_flatten.mp
      (Shape.mem_unitSocketNames hs.units hmem (hk' ▸ hplain))
    obtain ⟨i, hi⟩ := List.mem_iff_getElem?.mp hl
    obtain ⟨q, hq⟩ := List.mem_iff_getElem?.mp hn
    have hlen := length_names (s := s) (Shape.placeholders_ne_of_ofUnits hs.units)
    have hi' : i < s.units.length := hlen ▸ (List.getElem?_eq_some_iff.mp hi).1
    refine ⟨s.units[i], List.getElem_mem hi', List.mem_iff_getElem?.mpr ⟨q, ?_⟩⟩
    refine (getElem?_contents hs.numbers hs.units).mpr
      ⟨i, _, l, _, List.getElem?_eq_getElem hi', rfl, hi, hq, ?_⟩
    rw [show k.emptied.name = k.name from rfl]
    simpa [occupant?, hs.owner] using (h.linked.link _ _).mpr hp
  · rintro ⟨u, -, hc⟩
    obtain ⟨q, hq⟩ := List.mem_iff_getElem?.mp hc
    obtain ⟨i, u, l, n, -, -, hl, hn, ht⟩ :=
      (getElem?_contents hs.numbers hs.units).mp hq
    obtain ⟨k, hk, htarget⟩ := Option.bind_eq_some_iff.mp ht
    have hmem := List.mem_of_find?_eq_some hk
    have hname : k.name = n := by simpa using List.find?_some hk
    obtain ⟨k', hk', hname', hstruct⟩ := Shape.structural_of_mem_unitSocketNames hs.units
      (List.mem_flatten.mpr ⟨l, List.mem_of_getElem? hl, List.mem_of_getElem? hn⟩)
    have he := hd.agree (hlayout ▸ List.mem_map_of_mem hmem : k.emptied ∈ shape.layout b.mutation)
      hk' (hname.trans hname'.symm)
    have hs' : k.emptied.structural := he ▸ hstruct
    exact List.mem_filterMap.mpr ⟨k, List.mem_filter.mpr ⟨hmem, hs'⟩, htarget⟩

/-- What is planned for a socket of a unit is what the unit held in that place. -/
theorem Linked.mem_planned (h : w.Linked) (hd : shape.Distinct) (hs : s.StandsFor w b shape)
    (hr : (s.saved shape b).Rearranged t) {m : Mutation} (hm : Composable t w b shape m)
    (hu : t.units[j]? = some u) (hl : (shape.unitSocketNames t.kinds)[j]? = some l)
    (hq : l[q]? = some n) :
    (n, c) ∈ t.planned w ↔ (s.contents shape b u.number)[q]? = some (some c) := by
  have hnumbers := hr.wellNumbered hs.wellNumbered_saved
  rw [hm.planned, mem_plan_iff, hs.mem_slots hr, reattachable_iff]
  · constructor
    · rintro ⟨⟨j', q', u', l', hu', hl', hq', hc⟩, -⟩
      obtain ⟨rfl, rfl⟩ := hd.unit_of_name hm.units hl hq hl' hq'
      obtain rfl := Option.some.inj (hu.symm.trans hu')
      exact hc
    · intro hc
      obtain ⟨_, _, _, n', -, -, -, -, ht⟩ :=
        (getElem?_contents hs.numbers hs.units).mp hc
      have hp := (h.link (.input s.owner n') c).mp (by simp [occupant?, hs.owner, ht])
      exact ⟨⟨j, q, u, l, hu, hl, hq, hc⟩, has_of_parent? hp, .inr ⟨n', hr.owner ▸ hp⟩⟩
  · intro n n' c hn hn'
    obtain ⟨j, q, u, l, hu, hl, hq, hc⟩ := (hs.mem_slots hr).mp hn
    obtain ⟨j', q', u', l', hu', hl', hq', hc'⟩ := (hs.mem_slots hr).mp hn'
    obtain ⟨he, rfl⟩ := h.contents_inj hd hs hc hc'
    obtain ⟨rfl, rfl⟩ := hnumbers.eq_of_number hu hu' he
    obtain rfl := Option.some.inj (hl.symm.trans hl')
    exact Option.some.inj (hq.symm.trans hq')

/-- A satellite stands for its block from the start. -/
theorem decompose_standsFor {id : BlockId} (hb : w.find? id = some b)
    (hshape : w.shapes.get? b.type = some shape)
    (hunits : shape.ofUnits (shape.unitsOf b.mutation) = .ok b.mutation) :
    ∃ s, (decompose id).perform w = (.ok s, w) ∧ s.owner = id ∧ s.StandsFor w b shape := by
  have hkinds : (numbered (shape.unitsOf b.mutation)).map (·.kind) = shape.unitsOf b.mutation := by
    refine List.ext_getElem? fun i => ?_
    simp [numbered, Function.comp_def]
  have hnumbers : (numbered (shape.unitsOf b.mutation)).map (·.number) =
      List.range (shape.unitsOf b.mutation).length := by
    refine List.ext_getElem (by simp [numbered]) fun i hi hi' => ?_
    simp [numbered]
  have he : (decompose id).Ensures w
      (fun s w' => w' = w ∧ s.owner = id ∧ s.StandsFor w b shape) fun _ _ => False := by
    unfold decompose
    simp only [ensures_bind, ensures_refusedAs, ensures_require, hb, ensures_requireShape, hshape]
    rw [if_neg (by simpa using Shape.placeholders_ne_of_ofUnits hunits), ensures_pure]
    refine ⟨rfl, rfl, hb, hshape, ?_, rfl, hnumbers ▸ List.nodup_range, fun u hu => ?_⟩
    · rw [kinds, hkinds, hunits]
    · obtain ⟨i, hi, rfl⟩ := List.mem_mapIdx.mp hu
      exact hi
  obtain ⟨s, w', hs, rfl, hid, hstands⟩ := he.exists_ok
  exact ⟨s, hs, hid, hstands⟩

end Workspace

end BlockProgram
