import BlockProgram.Proofs.Shape.Orderly
import BlockProgram.Proofs.Workspace.Contents
import BlockProgram.Proofs.Workspace.Forest

/-! Composing a satellite whose connections were saved last. Every unit takes along what it held, a unit
that is gone lets go of its blocks, and nothing else changes but the fields that show the mutation. -/
namespace BlockProgram

/-- A block whose fields show its mutation. -/
def Block.shown (b : Block) (shape : Shape) : Block :=
  { b with fields := Workspace.showMutation shape b.mutation b.fields }

namespace Workspace

open Edit Satellite

/-- A unit of `s` that `t` has no longer. -/
def Removed (s t : Satellite) (u : SatelliteUnit) : Prop :=
  u ∈ s.units ∧ ∀ v ∈ t.units, v.number ≠ u.number

/-- A removed unit held a stand-in, and `x` is that or beneath it. -/
def Lost (s t : Satellite) (shape : Shape) (b : Block) (w : Workspace) (x : BlockId) : Prop :=
  ∃ u c d, Removed s t u ∧ some c ∈ s.contents shape b u.number ∧ w.find? c = some d ∧ d.shadow ∧
    w.Under c x

/-- The workspace `w'` is `w` with the owner `b` of `s`, now `o`, in the structure of `t`. -/
structure Recomposed (s t : Satellite) (shape : Shape) (b o : Block) (w w' : Workspace) :
    Prop where
  shapes : w'.shapes = w.shapes
  found : w'.find? s.owner = some o
  units : shape.ofUnits t.kinds = .ok o.mutation
  layout : o.sockets.map Socket.emptied = shape.layout o.mutation
  /-- A unit that is still there holds what it held, wherever it stands. -/
  survived : ∀ u ∈ s.units, ∀ v ∈ t.units, v.number = u.number →
    t.contents shape o u.number = s.contents shape b u.number
  fresh : ∀ v ∈ t.units, (∀ u ∈ s.units, u.number ≠ v.number) →
    ∀ content ∈ t.contents shape o v.number, content = none
  /-- What a removed unit held is plugged in nowhere, or gone if it is a stand-in. -/
  removed : ∀ u c d, Removed s t u → some c ∈ s.contents shape b u.number → w.find? c = some d →
    d.shadow = false → w'.find? c = some { d with parent := none }
  lost : ∀ x, Lost s t shape b w x → w'.find? x = none
  fixed : ∀ k ∈ b.sockets, k.structural = false → k ∈ o.sockets
  owner : o = { b with
    sockets := o.sockets, mutation := o.mutation
    fields := showMutation shape o.mutation b.fields }
  others : ∀ x d, x ≠ s.owner → w.find? x = some d → ¬ Lost s t shape b w x → ∃ place,
    w'.find? x = some { d with parent := place } ∧
      (place = d.parent ∨ ∃ u ∈ s.units, some x ∈ s.contents shape b u.number)
  linked : w'.Linked
  order : w'.ids = w.ids.filter w'.has

variable {typed : Prop} {w w' : Workspace} {shapes : ShapeRegistry} {s t : Satellite} {shape : Shape}
  {b o : Block} {m : Mutation} {u v : SatelliteUnit} {c x : BlockId} {j q : Nat} {l : List String}
  {n : String}

private theorem planned_blocks (h : w.Linked) (hd : shape.Distinct) (hs : s.StandsFor w b shape)
    (hr : (s.saved shape b).Rearranged t) (hm : Composable t w b shape m) :
    c ∈ (t.planned w).map (·.2) ↔ ∃ v ∈ t.units, some c ∈ s.contents shape b v.number := by
  constructor
  · intro hc
    obtain ⟨⟨n, c⟩, hp, rfl⟩ := List.mem_map.mp hc
    have hslot := hp
    rw [hm.planned] at hslot
    obtain ⟨j, q, v, l, hv, -, -, hc⟩ := (hs.mem_slots hr).mp (mem_plan hslot).1
    exact ⟨v, List.mem_of_getElem? hv, List.mem_of_getElem? hc⟩
  · rintro ⟨v, hv, hc⟩
    obtain ⟨q, hq⟩ := List.mem_iff_getElem?.mp hc
    obtain ⟨j, hj⟩ := List.mem_iff_getElem?.mp hv
    obtain ⟨l, hl⟩ := exists_names hm.units hj
    have hlen : q < l.length := by
      obtain ⟨i, u, _, _, hu, hn, -⟩ := (getElem?_contents hs.numbers hs.units).mp hq
      rw [← hs.length_contents hr (List.mem_of_getElem? hu) hn hj hl]
      exact (List.getElem?_eq_some_iff.mp hq).1
    exact List.mem_map.mpr ⟨(l[q], c), (h.mem_planned hd hs hr hm hj hl
      (List.getElem?_eq_getElem hlen)).mpr hq, rfl⟩

/-- What is lost with removed units is what replanting drops. -/
theorem Sound.lost_iff (h : Sound True typed w) (hs : s.StandsFor w b shape)
    (hr : (s.saved shape b).Rearranged t) (hm : Composable t w b shape m) :
    Lost s t shape b w x ↔ w.Dropped (w.spare (t.planned w)) b.unitTargets x := by
  have hd := h.distinct shape (ShapeRegistry.mem_of_get? hs.known).1
  have hplanned (c : BlockId) := planned_blocks (c := c) h.linked hd hs hr hm
  have hspare (c : BlockId) : w.spare (t.planned w) c ↔
      c ∉ (t.planned w).map (·.2) ∧ ∃ d, w.find? c = some d ∧ d.shadow := by
    simp only [spare, bare?, Bool.and_eq_true, Bool.not_eq_true', List.any_eq_false,
      decide_eq_true_eq, List.mem_map, not_exists, not_and, Option.any_eq_true,
      Option.map_eq_some_iff, exists_exists_and_eq_and]
    rfl
  constructor
  · rintro ⟨u, c, d, ⟨hu, hnone⟩, hc, hfind, hshadow, hunder⟩
    refine ⟨c, (h.mem_unitTargets hs).mpr ⟨u, hu, hc⟩, (hspare c).mpr ⟨?_, d, hfind, hshadow⟩, hunder⟩
    rw [hplanned]
    rintro ⟨v, hv, hc'⟩
    obtain ⟨q, hq⟩ := List.mem_iff_getElem?.mp hc
    obtain ⟨q', hq'⟩ := List.mem_iff_getElem?.mp hc'
    exact hnone v hv (h.linked.contents_inj hd hs hq hq').1.symm
  · rintro ⟨c, hc, hsp, hunder⟩
    obtain ⟨u, hu, hc⟩ := (h.mem_unitTargets hs).mp hc
    obtain ⟨hnot, d, hfind, hshadow⟩ := (hspare c).mp hsp
    exact ⟨u, c, d, ⟨hu, fun v hv he => hnot ((hplanned c).mpr ⟨v, hv, he ▸ hc⟩)⟩, hc, hfind,
      hshadow, hunder⟩

section transplanted

variable (h : Sound True typed w) (hs : s.StandsFor w b shape)
  (hr : (s.saved shape b).Rearranged t) (hm : Composable t w b shape m)
include h hs hr hm

private theorem planned_in_units : ∀ p ∈ t.planned w, p.2 ∈ b.unitTargets := by
  have hd := h.distinct shape (ShapeRegistry.mem_of_get? hs.known).1
  intro p hp
  obtain ⟨v, -, hc⟩ := (planned_blocks h.linked hd hs hr hm).mp (List.mem_map_of_mem hp)
  obtain ⟨q, hq⟩ := List.mem_iff_getElem?.mp hc
  obtain ⟨i, u, _, _, hu, hn, -⟩ := (getElem?_contents hs.numbers hs.units).mp hq
  exact (h.mem_unitTargets hs).mpr ⟨u, List.mem_of_getElem? hu, hn ▸ hc⟩

variable (ht : Transplanted s.owner b shape m (t.planned w) w w')
include ht

/-- A socket of a unit holds what the unit held in that place. -/
theorem target_unit (ho : w'.find? s.owner = some o) (hu : t.units[j]? = some u)
    (hl : (shape.unitSocketNames t.kinds)[j]? = some l) (hq : l[q]? = some n) :
    o.target? n = (s.contents shape b u.number)[q]?.join := by
  have hd := h.distinct shape (ShapeRegistry.mem_of_get? hs.known).1
  obtain ⟨k, hk, rfl, hstruct⟩ := Shape.structural_of_mem_unitSocketNames hm.units
    (List.mem_flatten.mpr ⟨l, List.mem_of_getElem? hl, List.mem_of_getElem? hq⟩)
  have hocc (c : BlockId) := ht.occupant?_unit (c := c) h hs.owner hs.known hk hstruct
  refine Option.ext fun c => ?_
  rw [Option.join_eq_some_iff, ← h.linked.mem_planned hd hs hr hm hu hl hq, ← hocc]
  simp [occupant?, ho]

private theorem contents_survived (ho : w'.find? s.owner = some o) (hu : u ∈ s.units)
    (hv : v ∈ t.units) (hn : v.number = u.number) :
    t.contents shape o u.number = s.contents shape b u.number := by
  obtain ⟨j, hj⟩ := List.mem_iff_getElem?.mp hv
  obtain ⟨l, hl⟩ := exists_names hm.units hj
  have hlen := hs.length_contents hr hu hn.symm hj hl
  rw [← hn, contents_eq (hr.wellNumbered hs.wellNumbered_saved) hj hl]
  refine List.ext_getElem (by simp [hlen]) fun q hq hq' => ?_
  rw [List.getElem_map, target_unit h hs hr hm ht ho hj hl (List.getElem?_eq_getElem _)]
  simp [List.getElem?_eq_getElem hq']

private theorem contents_fresh (ho : w'.find? s.owner = some o) (hv : v ∈ t.units)
    (hnew : ∀ u ∈ s.units, u.number ≠ v.number) :
    ∀ content ∈ t.contents shape o v.number, content = none := by
  obtain ⟨j, hj⟩ := List.mem_iff_getElem?.mp hv
  obtain ⟨l, hl⟩ := exists_names hm.units hj
  rw [contents_eq (hr.wellNumbered hs.wellNumbered_saved) hj hl]
  intro content hc
  obtain ⟨n, hn, rfl⟩ := List.mem_map.mp hc
  obtain ⟨q, hq⟩ := List.mem_iff_getElem?.mp hn
  rw [target_unit h hs hr hm ht ho hj hl hq, contents_eq_nil hs.numbers hnew]
  rfl

/-- The owner is where it was, with what followed it. -/
theorem owner_recomposed :
    ∃ o, w'.find? s.owner = some o ∧ o.mutation = m ∧
      o.sockets.map Socket.emptied = shape.layout m ∧
      o = { b with
        sockets := o.sockets, mutation := m, fields := showMutation shape m b.fields } := by
  have hplan := hm.plan (h.distinct shape (ShapeRegistry.mem_of_get? hs.known).1)
  have hunits := planned_in_units h hs hr hm
  have ha := h.acyclic trivial
  have hleft : ¬ w.Dropped (w.spare (t.planned w)) b.unitTargets s.owner :=
    ha.not_dropped_owner h.linked hs.owner
  have hconnectors : shape.connectorsOf m = b.connectors := by
    rw [(h.layout hs.owner hs.known).2, Shape.connectorsOf_of_ofUnits hm.units,
      Shape.connectorsOf_of_ofUnits hm.units]
  have hfree : s.owner ∉ b.unitTargets := by
    intro hc
    obtain ⟨k, -, -, hp⟩ := (h.linked.mem_unitTargets hs.owner).mp hc
    exact ha.not_under hp .self
  have hparent : w'.parent? s.owner = b.parent := by
    rw [ht.kept _ hleft hfree fun hc => ?_]
    · simp [parent?, hs.owner]
    · obtain ⟨p, hp, he⟩ := List.mem_map.mp hc
      exact hfree (he ▸ hunits p hp)
  have hnext : w'.occupant? (.next s.owner) = b.next := by
    have hkept : w'.occupant? (.next s.owner) = w.occupant? (.next s.owner) :=
      ht.occupant?_eq h hs.owner hs.known hplan hunits hleft fun _ _ _ _ => by simp
    rw [hkept]
    simp [occupant?, hs.owner]
  have hbare : w'.bare? s.owner = some (b.bare.reshaped shape m) := by
    rw [ht.bare _ hleft, if_pos rfl]
    simp [bare?, hs.owner]
  obtain ⟨o, ho, hlayout, he⟩ := exists_reshaped hbare
  rw [hparent, hnext, hconnectors] at he
  exact ⟨o, ho, by rw [he], hlayout, he⟩

private theorem fixed_kept (ho : w'.find? s.owner = some o)
    (hlayout : o.sockets.map Socket.emptied = shape.layout m) {k : Socket} (hk : k ∈ b.sockets)
    (hfixed : k.structural = false) : k ∈ o.sockets := by
  have hd := h.distinct shape (ShapeRegistry.mem_of_get? hs.known).1
  have hold : k.emptied ∈ shape.layout b.mutation :=
    (h.layout hs.owner hs.known).1 ▸ List.mem_map_of_mem hk
  have hnew : k.emptied ∈ o.sockets.map Socket.emptied :=
    hlayout ▸ Shape.mem_layout_of_fixed hold hfixed m
  obtain ⟨k', hk', he : k'.emptied = k.emptied⟩ := List.mem_map.mp hnew
  have hname : k'.emptied.name = k.emptied.name := congrArg Socket.name he
  have hocc : w'.occupant? (.input s.owner k.name) = w.occupant? (.input s.owner k.name) := by
    refine ht.occupant?_eq h hs.owner hs.known (hm.plan hd) (planned_in_units h hs hr hm)
      ((h.acyclic trivial).not_dropped_owner h.linked hs.owner) fun m' k'' hk'' hstruct hname' => ?_
    have hsame := hd.agree hold hk'' (Attachment.input.inj hname').2
    rw [← hsame, show k.emptied.structural = k.structural from rfl, hfixed] at hstruct
    cases hstruct
  have htarget : k'.target = k.target := by
    have hsock := Block.socket?_of_mem (ht.linked.socket_names ho) hk'
    have hsock' := Block.socket?_of_mem (h.linked.socket_names hs.owner) hk
    rw [show k'.name = k.name from hname] at hsock
    simpa [occupant?, ho, hs.owner, Block.target?, hsock, hsock'] using hocc
  have hk : k' = k := by
    rw [show k' = { k'.emptied with target := k'.target } from rfl, he, htarget]
    rfl
  exact hk ▸ hk'

private theorem removed_freed {d : Block} (hu : Removed s t u)
    (hc : some c ∈ s.contents shape b u.number) (hfind : w.find? c = some d)
    (hplain : d.shadow = false) : w'.find? c = some { d with parent := none } := by
  have hd := h.distinct shape (ShapeRegistry.mem_of_get? hs.known).1
  have ha := h.acyclic trivial
  have hmem := (h.mem_unitTargets hs).mpr ⟨u, hu.1, hc⟩
  obtain ⟨k, -, -, hp⟩ := (h.linked.mem_unitTargets hs.owner).mp hmem
  have hnot : c ∉ (t.planned w).map (·.2) := by
    rw [planned_blocks h.linked hd hs hr hm]
    rintro ⟨v, hv, hc'⟩
    obtain ⟨q, hq⟩ := List.mem_iff_getElem?.mp hc
    obtain ⟨q', hq'⟩ := List.mem_iff_getElem?.mp hc'
    exact hu.2 v hv (h.linked.contents_inj hd hs hq hq').1.symm
  have hleft : ¬ w.Dropped (w.spare (t.planned w)) b.unitTargets c := by
    rintro ⟨e, he, hspare, hunder⟩
    obtain ⟨k', -, -, hp'⟩ := (h.linked.mem_unitTargets hs.owner).mp he
    obtain rfl := ha.siblings hp' hp rfl hunder
    simp [spare, bare?, hfind, Block.bare, hplain] at hspare
  have hne : c ≠ s.owner := by
    rintro rfl
    exact ha.not_under hp .self
  rw [ht.find?_of_ne h hs.owner hs.known (hm.plan hd) (planned_in_units h hs hr hm) hfind hne hleft,
    ht.freed c hmem hnot]

private theorem others_kept {d : Block} (hne : x ≠ s.owner) (hfind : w.find? x = some d)
    (hleft : ¬ Lost s t shape b w x) : ∃ place, w'.find? x = some { d with parent := place } ∧
      (place = d.parent ∨ ∃ u ∈ s.units, some x ∈ s.contents shape b u.number) := by
  have hd := h.distinct shape (ShapeRegistry.mem_of_get? hs.known).1
  have hunits := planned_in_units h hs hr hm
  rw [h.lost_iff hs hr hm] at hleft
  refine ⟨_, ht.find?_of_ne h hs.owner hs.known (hm.plan hd) hunits hfind hne hleft, ?_⟩
  by_cases hx : x ∈ b.unitTargets
  · exact .inr ((h.mem_unitTargets hs).mp hx)
  · refine .inl ?_
    rw [ht.kept x hleft hx fun hc => ?_]
    · simp [parent?, hfind]
    · obtain ⟨p, hp, rfl⟩ := List.mem_map.mp hc
      exact hx (hunits p hp)

private theorem Transplanted.recomposed :
    ∃ o, o.mutation = m ∧ Recomposed s t shape b o w w' := by
  obtain ⟨o, ho, rfl, hlayout, howner⟩ := owner_recomposed h hs hr hm ht
  refine ⟨o, rfl, {
    shapes := ht.shapes
    found := ho
    units := hm.units
    layout := hlayout
    survived := fun u hu v hv hn => contents_survived h hs hr hm ht ho hu hv hn
    fresh := fun v hv hnew => contents_fresh h hs hr hm ht ho hv hnew
    removed := fun u c d hu hc hfind hplain => removed_freed h hs hr hm ht hu hc hfind hplain
    lost := fun x hx => ?_
    fixed := fun k hk hfixed => fixed_kept h hs hr hm ht ho hlayout hk hfixed
    owner := howner
    others := fun x d hne hfind hleft => others_kept h hs hr hm ht hne hfind hleft
    linked := ht.linked
    order := ?_ }⟩
  · have hgone := ht.gone x ((h.lost_iff hs hr hm).mp hx)
    simpa [has] using hgone
  · exact ids_eq_filter h.linked.nodup ht.ids

variable (hsame : t.units = (s.saved shape b).units)
include hsame

omit h hs hr hm ht in
private theorem kinds_of_same : t.kinds = s.kinds := by
  rw [kinds, hsame]
  exact kinds_saved s shape b

omit ht in
private theorem not_dropped_of_same (x : BlockId) :
    ¬ w.Dropped (w.spare (t.planned w)) b.unitTargets x := by
  rw [← h.lost_iff hs hr hm]
  rintro ⟨u, _, _, ⟨hu, hgone⟩, _⟩
  obtain ⟨v, hv, he⟩ := List.mem_map.mp ((numbers_saved s shape b).symm ▸
    List.mem_map_of_mem hu : u.number ∈ (s.saved shape b).units.map (·.number))
  exact hgone v (hsame ▸ hv) he

/-- A block that was in a unit is planned for the place that it had. -/
theorem Transplanted.parent?_of_same (x : BlockId) : w'.parent? x = w.parent? x := by
  have hd := h.distinct shape (ShapeRegistry.mem_of_get? hs.known).1
  by_cases hx : x ∈ b.unitTargets
  · obtain ⟨u, -, hc⟩ := (h.mem_unitTargets hs).mp hx
    obtain ⟨q, hq⟩ := List.mem_iff_getElem?.mp hc
    obtain ⟨i, v, l, n, hv, hn, hl, hname, htarget⟩ :=
      (getElem?_contents hs.numbers hs.units).mp hq
    have hlen := length_names (s := s) (Shape.placeholders_ne_of_ofUnits hs.units)
    have hv' : t.units[i]? = some { v with saved := l.map b.target? } := by
      rw [hsame]
      exact (getElem?_savedUnits hlen).mpr ⟨v, l, hv, hl, rfl⟩
    have hl' : (shape.unitSocketNames t.kinds)[i]? = some l := (kinds_of_same hsame).symm ▸ hl
    rw [ht.planted _ ((h.linked.mem_planned hd hs hr hm hv' hl' hname).mpr (hn ▸ hq))]
    exact ((h.linked.link _ _).mp (by simp [occupant?, hs.owner, htarget])).symm
  · refine ht.kept x (not_dropped_of_same h hs hr hm hsame x) hx fun hc => ?_
    obtain ⟨p, hp, rfl⟩ := List.mem_map.mp hc
    exact hx (planned_in_units h hs hr hm p hp)

/-- Units that are as they were saved put every block back where it was. -/
theorem Transplanted.unchanged : w' = w.modify s.owner fun o => o.shown shape := by
  have hmutation : m = b.mutation := by
    have hunits := hm.units
    rw [kinds_of_same hsame, hs.units] at hunits
    exact (Except.ok.inj hunits).symm
  have hbare (x : BlockId) := ht.bare x (not_dropped_of_same h hs hr hm hsame x)
  have hids : w'.ids = w.ids := by
    refine ids_eq_of_has h.linked.nodup ht.ids fun x => ?_
    rw [has_iff_bare?, hbare, has_iff_bare?]
    split <;> simp
  refine h.linked.eq_modify ht.linked ht.shapes hids hs.owner
    (h.distinct shape (ShapeRegistry.mem_of_get? hs.known).1)
    (hmutation ▸ (h.layout hs.owner hs.known).1) hbare
    (fun x => ht.parent?_of_same h hs hr hm hsame x) ?_
  rw [hmutation, ← (h.layout hs.owner hs.known).2]
  rfl

end transplanted

/-- The satellite that was composed stands for the block as it is now. -/
theorem Recomposed.standsFor (h : Recomposed s t shape b o w w') (hs : s.StandsFor w b shape)
    (hr : (s.saved shape b).Rearranged t) : t.StandsFor w' o shape where
  owner := hr.owner ▸ h.found
  known := by
    rw [h.shapes, h.owner]
    exact hs.known
  units := h.units
  allowed := hr.allowed.trans hs.allowed
  numbers := hr.wellNumbered hs.wellNumbered_saved

/-- Nothing comes of a satellite whose owner has a mutation that its shape does not accept. -/
theorem compose_of_not_accepts (hs : s.StandsFor w b shape)
    (hr : (s.saved shape b).Rearranged t) (ha : ¬ shape.accepts b.mutation) :
    (compose t).perform w = (.error (.incompatible b.type b.mutation.token), w) := by
  have he : (compose t).Ensures w (fun _ _ => False) fun err w' =>
      err = .incompatible b.type b.mutation.token ∧ w' = w := by
    rw [ensures_compose_iff (hr.owner ▸ hs.owner) hs.known (hs.known_units hr),
      Shape.transition_of_not_accepts (by simpa using ha)]
    exact ⟨congrArg (MutationError.incompatible · _) (ShapeRegistry.mem_of_get? hs.known).2, rfl⟩
  obtain ⟨_, _, he, rfl, rfl⟩ := he.exists_error
  exact he

/-- Blocks stay with their units through any edits of units. Composing is refused only where the owner
has a mutation that its shape does not accept, and then changes nothing. -/
theorem compose_recomposed (hd : shapes.Distinct) (hw : Edited shapes w)
    (hs : s.StandsFor w b shape) (hr : (s.saved shape b).Rearranged t) :
    (saveConnections s).perform w = (.ok (s.saved shape b), w) ∧
      (shape.accepts b.mutation → ∃ o w',
        (compose t).perform w = (.ok (.between shape b.mutation o.mutation), w') ∧
          Recomposed s t shape b o w w' ∧
          (t.units = (s.saved shape b).units → w' = w.modify s.owner fun o => o.shown shape)) ∧
      (¬ shape.accepts b.mutation →
        (compose t).perform w = (.error (.incompatible b.type b.mutation.token), w)) := by
  have h : Sound True False w := hw.sound hd False.elim
  have hsaved := perform_saveConnections hs.owner hs.known
  refine ⟨hsaved, fun ha => ?_, compose_of_not_accepts hs hr⟩
  · obtain ⟨m, hm⟩ := hs.composable hr ha
    have howner : w.find? t.owner = some b := hm.owner
    have hdistinct := h.distinct shape (ShapeRegistry.mem_of_get? hs.known).1
    have hsame : shape.connectorsOf m = shape.connectorsOf b.mutation := by
      rw [Shape.connectorsOf_of_ofUnits hm.units, Shape.connectorsOf_of_ofUnits hm.units]
    have hre : ∀ p ∈ t.planned w, w.reattachable p.2 t.owner := by
      intro p hp
      rw [hm.planned] at hp
      exact (mem_plan hp).2
    have he : (compose t).Ensures w (fun diff w' => diff = .between shape b.mutation m ∧
        Transplanted s.owner b shape m (t.planned w) w w') fun _ _ => False := by
      have htrans : shape.transition b.mutation (.compose t.kinds) =
          .ok (m, .between shape b.mutation m) :=
        Shape.transition_eq_ok.mpr ⟨ha, hm.units, hm.few, rfl⟩
      rw [ensures_compose_iff howner hs.known (hs.known_units hr), htrans]
      refine (h.ensures_transplant howner hs.known hsame (hm.plan hdistinct) hre
        (h.fitting_of_saved (congrArg Prod.fst hsaved) hr hm)).mono (fun _ _ h' => ⟨rfl, hr.owner ▸ h'⟩)
          fun _ _ h' => h'
    obtain ⟨_, w', he, rfl, ht⟩ := he.exists_ok
    obtain ⟨o, rfl, hre⟩ := ht.recomposed h hs hr hm
    exact ⟨o, w', he, hre, ht.unchanged h hs hr hm⟩

/-- A list loses its first unit and gets a new one; the number in the second unit moves with it. -/
theorem compose_recomposed_of_removed :
    let w := [Action.add ⟨"list"⟩ "lists_create_with" false, .add ⟨"one"⟩ "math_number" false,
      .connectValue ⟨"list"⟩ "ITEM1" ⟨"one"⟩].foldl Action.apply (.empty Python.standard.shapes)
    let unit (n : Nat) : SatelliteUnit := ⟨n, "lists_create_with_item", []⟩
    let s : Satellite := ⟨⟨"list"⟩, "lists_create_with", [⟨"lists_create_with_item", none⟩],
      [unit 0, unit 1, unit 2], 3⟩
    Python.standard.shapes.Distinct ∧ Edited Python.standard.shapes w ∧ ∃ b shape,
      s.StandsFor w b shape ∧ shape.accepts b.mutation ∧
      (s.saved shape b).Rearranged ((s.saved shape b).remove 0).2 ∧ ∃ o w',
        ((compose ((s.saved shape b).remove 0).2).perform w).2 = w' ∧
        Recomposed s ((s.saved shape b).remove 0).2 shape b o w w' ∧
        w'.parent? ⟨"one"⟩ = some (.input ⟨"list"⟩ "ITEM0") := by
  intro w unit s
  have hw : Edited Python.standard.shapes w := Edited.empty.run _
  let b := (w.find? s.owner).get (by decide +kernel)
  let shape := (w.shapes.get? b.type).get (by decide +kernel)
  have hs : s.StandsFor w b shape :=
    ⟨(Option.some_get _).symm, (Option.some_get _).symm, by decide +kernel, by decide +kernel,
      by decide +kernel, by decide +kernel⟩
  have ha : shape.accepts b.mutation := by decide +kernel
  have hr := Rearranged.refl (s := s.saved shape b) |>.remove 0
  obtain ⟨o, w', he, hre, -⟩ :=
    (compose_recomposed Python.standard_distinct hw hs hr).2.1 ha
  refine ⟨Python.standard_distinct, hw, b, shape, hs, ha, hr, o, w', by rw [he], hre, ?_⟩
  rw [← show ((compose ((s.saved shape b).remove 0).2).perform w).2 = w' by rw [he]]
  decide +kernel

/-- The field of a new row shows a count of five although the row has one cell; composing that one cell
puts it right. A new row of more cells than there may be cannot be composed. -/
theorem compose_saved_not_unchanged :
    let row (initial : Nat) : Shape := {
      type := "row", connectors := .alone, fields := [.number "COUNT" (.ofNat 5)]
      mutator := .repeats {
        placeholder := "cell", templates := [.value "CELL"], countField := some "COUNT", initial } }
    let w (initial : Nat) : Workspace :=
      (Action.add ⟨"row"⟩ "row" false).apply (.empty ⟨[row initial]⟩)
    (∀ initial, ShapeRegistry.Distinct ⟨[row initial]⟩ ∧ Edited ⟨[row initial]⟩ (w initial)) ∧
      (∃ s b, (decompose ⟨"row"⟩).perform (w 1) = (.ok s, w 1) ∧ s.StandsFor (w 1) b (row 1) ∧
        ((compose (s.saved (row 1) b)).perform (w 1)).2 ≠ w 1) ∧
      ∃ s b, (decompose ⟨"row"⟩).perform (w 1025) = (.ok s, w 1025) ∧
        s.StandsFor (w 1025) b (row 1025) ∧
        ((compose (s.saved (row 1025) b)).perform (w 1025)).1 =
          .error (.incompatible "row" (Mutation.items 1025).token) := by
  intro row w
  have hdistinct (initial : Nat) : (row initial).Distinct :=
    Shape.Orderly.distinct ⟨List.nodup_nil, List.nodup_singleton _,
      fun t ht => by cases List.mem_singleton.mp ht; decide, by simp [row]⟩
  have hunits (initial : Nat) : (row initial).ofUnits ((row initial).unitsOf (.items initial)) =
      .ok (.items initial) := by
    rw [Shape.ofUnits_eq_ok]
    simp [row, Shape.unitsOf]
  refine ⟨fun initial => ⟨by simpa [ShapeRegistry.Distinct] using hdistinct initial,
    .act .empty _⟩, ?_, ?_⟩
  · let s : Satellite := ⟨⟨"row"⟩, "row", [⟨"cell", none⟩], [⟨0, "cell", []⟩], 1⟩
    let b := ((w 1).find? ⟨"row"⟩).get (by decide +kernel)
    have hs : s.StandsFor (w 1) b (row 1) :=
      ⟨(Option.some_get _).symm, by decide +kernel, by decide +kernel, by decide +kernel,
        by decide +kernel, by decide +kernel⟩
    exact ⟨s, b, by decide +kernel, hs, by decide +kernel⟩
  · obtain ⟨b, hb, htype, hm⟩ : ∃ b, (w 1025).find? ⟨"row"⟩ = some b ∧ b.type = "row" ∧
        b.mutation = .items 1025 := ⟨_, rfl, rfl, rfl⟩
    have hknown : (w 1025).shapes.get? b.type = some (row 1025) := by
      rw [htype]
      rfl
    obtain ⟨s, hdec, -, hs⟩ := decompose_standsFor hb hknown (hm ▸ hunits 1025)
    refine ⟨s, b, hdec, hs, ?_⟩
    rw [compose_of_not_accepts hs .refl (by rw [hm]; decide), htype, hm]

end Workspace

end BlockProgram
