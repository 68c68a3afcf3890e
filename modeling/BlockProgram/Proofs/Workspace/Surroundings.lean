import BlockProgram.Proofs.Workspace.Desk

/-! What composing leaves alone, however old the connections of the satellite are and also where links
already form a circle. Blocks outside the units stay in their places, with one exception: a saved block
that has moved into a fixed socket of the owner is taken out of it. -/
namespace BlockProgram.Workspace

open Edit

variable {rooted typed : Prop} {w w' : Workspace} {owner c x : BlockId} {place : Attachment}
  {b : Block} {shape : Shape} {m : Mutation} {plan : List (String × BlockId)} {s : Satellite}

/-- The place is a socket of a unit of a block. -/
def UnitPlace (w : Workspace) (owner : BlockId) (place : Attachment) : Prop :=
  ∃ b, w.find? owner = some b ∧ ∃ k ∈ b.sockets, k.structural ∧ place = .input owner k.name

/-- The block is held by a unit of `owner`, or beneath a block that is. -/
def InUnits (w : Workspace) (owner x : BlockId) : Prop :=
  ∃ b, w.find? owner = some b ∧ ∃ c ∈ b.unitTargets, w.Under c x

/-- Links differ at the units of a block only. -/
structure KeepsSurroundings (owner : BlockId) (w w' : Workspace) : Prop where
  /-- The fixed sockets hold what they held. -/
  fixed : ∀ b, w.find? owner = some b →
    ∃ o, w'.find? owner = some o ∧ ∀ k ∈ b.sockets, k.structural = false → k ∈ o.sockets
  /-- A block that is in no unit is where it was. -/
  outside : ∀ x place, w.parent? x = some place → ¬ w.InUnits owner x →
    w'.parent? x = some place ∧ w'.occupant? place = some x
  fresh : ∀ x place, w'.parent? x = some place → w.parent? x = some place ∨ w'.UnitPlace owner place

/-- Composing the satellite plugs in a block that stands in a fixed socket of its owner. -/
def DrainsFixed (w : Workspace) (s : Satellite) : Prop :=
  ∃ b ∈ w.find? s.owner, ∃ k ∈ b.sockets, k.structural = false ∧
    ∃ c ∈ k.target, c ∈ (s.planned w).map (·.2)

/-- A block whose upper neighbour stays keeps its place when another block is severed. -/
theorem Linked.parent?_severed (h : w.Linked) (hc : w.has c) (hp : w.parent? x = some place)
    (hne : x ≠ c) (hup : (w.severed c).has place.block) : (w.severed c).parent? x = some place := by
  have hp' : (w.detached c).parent? x = some place := by rw [parent?_detached, if_neg hne, hp]
  unfold Workspace.severed at hup ⊢
  split at hup
  · rename_i hshadow
    rw [if_pos hshadow, parent?_withoutSubtree, if_neg, hp']
    rw [(h.detached c).mem_descendants (by simpa using hc)]
    intro hu
    cases hu with
    | self => exact hne rfl
    | step hq hu =>
      cases Option.some.inj (hp'.symm.trans hq)
      exact (has_withoutSubtree.mp hup).2
        (((h.detached c).mem_descendants (by simpa using hc)).mpr hu)
  · rename_i hshadow
    rwa [if_neg hshadow]

/-- `w'` is `w` with some blocks of `moved` out of their places, and some of `cut` gone with all that was
beneath them. -/
private structure Thinned (cut moved : BlockId → Prop) (w w' : Workspace) : Prop where
  linked : w'.Linked
  pruned : Pruned w w'
  kept : ∀ x place, w.parent? x = some place → ¬ moved x → w'.has place.block →
    w'.parent? x = some place
  here : ∀ x, w.has x → (∀ c, cut c → ¬ w.Under c x) → w'.has x

namespace Thinned

variable {cut moved : BlockId → Prop}

private theorem refl (h : w.Linked) : Thinned cut moved w w :=
  ⟨h, .refl w, fun _ _ hp _ _ => hp, fun _ hx _ => hx⟩

private theorem detached (h : Thinned cut moved w w') (hc : moved c) :
    Thinned cut moved w (w'.detached c) where
  linked := h.linked.detached c
  pruned := h.pruned.trans (pruned_detached w' c)
  kept x place hp hx hup := by
    rw [parent?_detached, if_neg fun he : x = c => hx (he ▸ hc)]
    exact h.kept x place hp hx (by simpa using hup)
  here x hx hu := by simpa using h.here x hx hu

private theorem severed (h : Thinned cut moved w w') (hc : moved c) (hcut : cut c)
    (hhas : w'.has c) : Thinned cut moved w (w'.severed c) where
  linked := h.linked.severed hhas
  pruned := h.pruned.trans (pruned_severed w' c)
  kept x place hp hx hup :=
    h.linked.parent?_severed hhas (h.kept x place hp hx ((pruned_severed w' c).has hup))
      (fun he => hx (he ▸ hc)) hup
  here x hx hu := (h.linked.has_severed_iff hhas).mpr
    ⟨h.here x hx hu, fun hu' => hu c hcut (h.pruned.under hu'.2)⟩

private theorem ensures_clear (h : w.Linked) (hunits : ∀ c ∈ b.unitTargets, cut c ∧ moved c)
    (hplan : ∀ p ∈ plan, moved p.2) :
    (clearUnits b plan).Ensures w
      (fun _ w' => Thinned cut moved w w') fun _ _ => True := by
  unfold clearUnits
  rw [ensures_bind]
  have hcut : (b.unitTargets.forM fun child =>
      if plan.any fun p => p.2 = child then detach child else sever child).Ensures w
      (fun _ w' => Thinned cut moved w w') fun _ _ => True := by
    refine (ensures_forM (I := fun rest w' => Thinned cut moved w w' ∧
      ∀ c ∈ rest, c ∈ b.unitTargets) ?_ b.unitTargets w ⟨.refl h, fun _ hc => hc⟩).mono
        (fun _ _ h' => h'.1) fun _ _ h' => h'
    rintro c rest w' ⟨h', hrest⟩
    obtain ⟨hcut, hmoved⟩ := hunits c (hrest c (by simp))
    have hrest' : ∀ d ∈ rest, d ∈ b.unitTargets := fun d hd => hrest d (by simp [hd])
    split
    · rw [h'.linked.ensures_detach]
      cases w'.find? c with
      | none => trivial
      | some d => exact ⟨h'.detached hmoved, hrest'⟩
    · rw [h'.linked.ensures_sever]
      cases hd : w'.find? c with
      | none => trivial
      | some d => exact ⟨h'.severed hmoved hcut (has_iff.mpr ⟨d, hd⟩), hrest'⟩
  refine hcut.mono (fun _ w1 h1 => ?_) fun _ _ h' => h'
  refine (ensures_forM (I := fun rest w' => Thinned cut moved w w' ∧ ∀ p ∈ rest, p ∈ plan)
    ?_ plan w1 ⟨h1, fun _ hp => hp⟩).mono (fun _ _ h2 => h2.1) fun _ _ h' => h'
  rintro p rest w' ⟨h', hrest⟩
  rw [h'.linked.ensures_detach]
  cases w'.find? p.2 with
  | none => trivial
  | some d => exact ⟨h'.detached (hplan p (hrest p (by simp))), fun q hq => hrest q (by simp [hq])⟩

end Thinned

/-- What becomes of the places of a workspace when one of its blocks is replanted. -/
structure Resettled (owner : BlockId) (b : Block) (plan : List (String × BlockId))
    (w w' : Workspace) : Prop where
  stays : w'.has owner
  kept : ∀ x place, w.parent? x = some place → x ∉ b.unitTargets → x ∉ plan.map (·.2) →
    w'.has place.block → w'.parent? x = some place
  here : ∀ x, w.has x → (∀ c ∈ b.unitTargets, ¬ w.Under c x) → w'.has x
  fresh : ∀ x place, w'.parent? x = some place →
    w.parent? x = some place ∨ ∃ p ∈ plan, x = p.2 ∧ place = .input owner p.1

/-- Whatever the workspace is like, replanting settles the blocks of the units and the planned ones anew
and leaves all others in their places. -/
theorem Sound.ensures_resettle (h : Sound rooted typed w) (hb : w.find? owner = some b)
    (hshape : w.shapes.get? b.type = some shape)
    (hsame : shape.connectorsOf m = shape.connectorsOf b.mutation) (hplan : Plan shape m plan)
    (hfits : Fitting False shape m plan w) :
    (replant owner shape m plan).Ensures w (fun _ w' => Resettled owner b plan w w')
      fun _ _ => True := by
  have hthin := @Thinned.ensures_clear w b plan (· ∈ b.unitTargets)
    (fun x => x ∈ b.unitTargets ∨ x ∈ plan.map (·.2)) h.linked
    (fun c hc => ⟨hc, .inl hc⟩) fun p hp => .inr (List.mem_map_of_mem hp)
  rw [ensures_replant_iff hb]
  refine ((h.ensures_clearUnits hb).and hthin).mono (fun _ w2 ⟨⟨h2, hc, _⟩, ht⟩ => ?_)
    fun _ _ _ => trivial
  rw [ensures_bind]
  refine hc.ensures_rebuild h h2 hb hshape (fun hown w3 hr => ?_) fun _ _ => trivial
  have hparent3 := h2.parent?_rebuilt (hc.bare?_owner hb hown) (hc.pruned.shapes ▸ hshape) hsame hr
  have hready : Ready False False owner plan plan w3 :=
    hc.ready h.weaken h2.weaken hr hown hb hshape
      hsame hplan False.elim hfits
  refine (hready.sound.linked.ensures_plantAll hready.names hready.blocks
    (fun p hp => ⟨hready.offers p hp, hready.vacant p hp⟩) hready.free).mono (fun _ w4 h4 => ?_)
      fun _ _ h' => h'.elim
  have hhas4 (x : BlockId) : w4.has x = w2.has x := by
    rw [has_congr (h4.bare _), hr.has]
  refine ⟨by rwa [hhas4], fun x place hp hu hx hup => ?_, fun x hx hu => ?_, fun x place hp => ?_⟩
  · rw [h4.kept x hx, hparent3]
    exact ht.kept x place hp (fun hm => hm.elim hu hx) (hhas4 _ ▸ hup)
  · rw [hhas4]
    exact ht.here x hx hu
  · by_cases hx : x ∈ plan.map (·.2)
    · obtain ⟨p, hpm, rfl⟩ := List.mem_map.mp hx
      exact .inr ⟨p, hpm, rfl, Option.some.inj (hp.symm.trans (h4.planted p hpm))⟩
    · rw [h4.kept x hx, hparent3] at hp
      exact .inl (hc.pruned.parent x place hp)

/-- What a carried out composition has done. -/
private structure Composed (s : Satellite) (b : Block) (shape : Shape) (m : Mutation)
    (w w' : Workspace) : Prop where
  sound : Sound False False w
  checked : Composable s w b shape m
  replanted : Replanted s.owner shape m (s.planned w) w w'
  resettled : Resettled s.owner b (s.planned w) w w'
  linked : w'.Linked

private theorem Sound.composed (h : Sound False False w)
    (hplain : ∀ shape ∈ w.shapes.shapes, shape.Plain) {diff : LayoutDiff}
    (he : (compose s).perform w = (.ok diff, w')) : ∃ b shape m, Composed s b shape m w w' := by
  have hfitting {b : Block} {shape : Shape} {m : Mutation} (hc : Composable s w b shape m) :=
    h.fitting hplain hc
  have hsettle : (compose s).Ensures w (fun _ w' => ∃ b shape m, Composable s w b shape m ∧
      Resettled s.owner b (s.planned w) w w') fun _ _ => True := by
    refine Workspace.ensures_compose (fun b shape m hc => ?_) fun _ => trivial
    have hsame : shape.connectorsOf m = shape.connectorsOf b.mutation := by
      rw [Shape.connectorsOf_of_ofUnits hc.units, Shape.connectorsOf_of_ofUnits hc.units]
    exact (h.ensures_resettle hc.owner hc.known hsame
      (hc.plan (h.distinct shape (ShapeRegistry.mem_of_get? hc.known).1)) (hfitting hc)).mono
        (fun _ _ h' => ⟨b, shape, m, hc, h'⟩) fun _ _ h' => h'
  have hboth := (h.ensures_compose (s := s) fun _ _ _ hc => hfitting hc).and hsettle
  obtain ⟨⟨b, shape, m, hc, hre, hsound⟩, b', shape', m', hc', hsettled⟩ := hboth.of_ok he
  obtain rfl := Option.some.inj (hc.owner.symm.trans hc'.owner)
  exact ⟨b, shape, m, h, hc, hre, hsettled, (hsound False.elim (hfitting hc)).linked⟩

namespace Composed

variable (h : Composed s b shape m w w')
include h

private theorem distinct : shape.Distinct :=
  h.sound.distinct shape (ShapeRegistry.mem_of_get? h.checked.known).1

private theorem exists_owner : ∃ o, w'.find? s.owner = some o ∧
    o.sockets.map Socket.emptied = shape.layout m := by
  obtain ⟨o, ho⟩ := has_iff.mp h.resettled.stays
  obtain ⟨d, -, hd⟩ := h.replanted.bare s.owner o.bare (bare?_of_find? ho)
  rw [if_pos rfl] at hd
  exact ⟨o, ho, congrArg Block.sockets hd⟩

private theorem mem_layout_of_fixed {k : Socket} (hk : k ∈ b.sockets)
    (hfixed : k.structural = false) : k.emptied ∈ shape.layout m :=
  Shape.mem_layout_of_fixed ((h.sound.layout h.checked.owner h.checked.known).1 ▸
    List.mem_map_of_mem hk : k.emptied ∈ shape.layout b.mutation) hfixed m

/-- Nothing is planned for a fixed socket. -/
theorem not_planned {k : Socket} (hk : k ∈ b.sockets) (hfixed : k.structural = false)
    {p : String × BlockId} (hp : p ∈ s.planned w) : p.1 ≠ k.name := by
  intro hname
  obtain ⟨k', hk', hname', hs⟩ := (h.checked.plan h.distinct).structural p hp
  have he := h.distinct.agree hk' (h.mem_layout_of_fixed hk hfixed) (hname'.trans hname)
  simp [he, show k.emptied.structural = false from hfixed] at hs

/-- A block in a fixed socket is in no unit itself. -/
theorem not_mem_unitTargets {k : Socket} (hk : k ∈ b.sockets)
    (hfixed : k.structural = false) (hp : w.parent? c = some (.input s.owner k.name)) :
    c ∉ b.unitTargets := by
  intro hm
  obtain ⟨k', hk', hs, hp'⟩ := (h.sound.linked.mem_unitTargets h.checked.owner).mp hm
  have hname := (Attachment.input.inj (Option.some.inj (hp.symm.trans hp'))).2
  obtain rfl := List.inj_on_of_nodup_map (h.sound.linked.socket_names h.checked.owner) hk hk' hname
  simp [hfixed] at hs

private theorem parent?_fixed_iff (hdrain : ¬ w.DrainsFixed s) {k : Socket} (hk : k ∈ b.sockets)
    (hfixed : k.structural = false) : w'.parent? c = some (.input s.owner k.name) ↔
      w.parent? c = some (.input s.owner k.name) := by
  refine ⟨fun hp => ?_, fun hp => ?_⟩
  · refine (h.resettled.fresh _ _ hp).resolve_right ?_
    rintro ⟨p, hpm, -, he⟩
    exact h.not_planned hk hfixed hpm (Attachment.input.inj he).2.symm
  · refine h.resettled.kept _ _ hp (h.not_mem_unitTargets hk hfixed hp) (fun hm => hdrain ?_)
      h.resettled.stays
    exact ⟨b, h.checked.owner, k, hk, hfixed, c,
      (h.sound.linked.target_iff h.checked.owner hk).mpr hp, hm⟩

private theorem mem_sockets_of_fixed (hdrain : ¬ w.DrainsFixed s) {o : Block}
    (ho : w'.find? s.owner = some o) (hlayout : o.sockets.map Socket.emptied = shape.layout m)
    {k : Socket} (hk : k ∈ b.sockets) (hfixed : k.structural = false) : k ∈ o.sockets := by
  obtain ⟨k', hk', he⟩ := List.mem_map.mp (hlayout ▸ h.mem_layout_of_fixed hk hfixed)
  have hname : k'.emptied.name = k.emptied.name := congrArg Socket.name he
  have htarget : k'.target = k.target := by
    refine Option.ext fun c => ?_
    rw [h.linked.target_iff ho hk', h.sound.linked.target_iff h.checked.owner hk,
      show k'.name = k.name from hname]
    exact h.parent?_fixed_iff hdrain hk hfixed
  have hsame : k' = k := by
    rw [show k' = { k'.emptied with target := k'.target } from rfl, he, htarget]
    rfl
  exact hsame ▸ hk'

/-- A block in no unit has only one way out of its place. -/
theorem not_planned_of_outside (hdrain : ¬ w.DrainsFixed s)
    (hp : w.parent? x = some place) (hout : ¬ w.InUnits s.owner x) :
    x ∉ (s.planned w).map (·.2) := by
  intro hm
  obtain ⟨p, hpm, rfl⟩ := List.mem_map.mp hm
  have hre := hpm
  rw [h.checked.planned] at hre
  rcases (reattachable_iff.mp (mem_plan hre).2).2 with htop | ⟨n, hplace⟩
  · simp [htop] at hp
  obtain ⟨b', hb', htarget⟩ := Option.bind_eq_some_iff.mp ((h.sound.linked.link _ _).mpr hplace)
  obtain ⟨k, hk, ht⟩ := Option.bind_eq_some_iff.mp htarget
  obtain rfl := Option.some.inj (h.checked.owner.symm.trans hb')
  have hmem := List.mem_of_find?_eq_some hk
  by_cases hs : k.structural
  · refine hout ⟨b, hb', p.2, ?_, .self⟩
    exact List.mem_filterMap.mpr ⟨k, List.mem_filter.mpr ⟨hmem, hs⟩, ht⟩
  · exact hdrain ⟨b, hb', k, hmem, by simpa using hs, p.2, ht, hm⟩

private theorem keeps (hdrain : ¬ w.DrainsFixed s) : w.KeepsSurroundings s.owner w' := by
  obtain ⟨o, ho, hlayout⟩ := h.exists_owner
  refine ⟨fun b' hb' => ⟨o, ho, fun k hk hfixed => ?_⟩, fun x place hp hout => ?_,
    fun x place hp => ?_⟩
  · obtain rfl := Option.some.inj (h.checked.owner.symm.trans hb')
    exact h.mem_sockets_of_fixed hdrain ho hlayout hk hfixed
  · have hup {y : BlockId} (hu : w.Under y x) (c : BlockId) (hc : c ∈ b.unitTargets) :
        ¬ w.Under c y := fun hu' => hout ⟨b, h.checked.owner, c, hc, hu'.trans hu⟩
    have hkept := h.resettled.kept x place hp (fun hm => hup .self x hm .self)
      (h.not_planned_of_outside hdrain hp hout)
      (h.resettled.here _ (h.sound.linked.has_block hp) (hup (.of_parent hp)))
    exact ⟨hkept, (h.linked.link _ _).mpr hkept⟩
  · refine (h.resettled.fresh x place hp).imp_right ?_
    rintro ⟨p, hpm, -, rfl⟩
    obtain ⟨k, hk, hname, hs⟩ := (h.checked.plan h.distinct).structural p hpm
    obtain ⟨k', hk', rfl⟩ := List.mem_map.mp (hlayout ▸ hk)
    exact ⟨o, ho, k', hk', hs, congrArg _ hname.symm⟩

private theorem not_keeps (hdrain : w.DrainsFixed s) : ¬ w.KeepsSurroundings s.owner w' := by
  intro hkeeps
  obtain ⟨b', hb', k, hk, hfixed, c, hc, hm⟩ := hdrain
  obtain rfl := Option.some.inj (h.checked.owner.symm.trans hb')
  obtain ⟨o, ho, hkept⟩ := hkeeps.fixed b hb'
  obtain ⟨p, hp, rfl⟩ := List.mem_map.mp hm
  have hplace := (h.linked.target_iff ho (hkept k hk hfixed)).mp hc
  have hname := (Attachment.input.inj (Option.some.inj
    ((h.replanted.planted p hp).symm.trans hplace))).2
  exact h.not_planned hk hfixed hp hname

end Composed

end BlockProgram.Workspace

namespace BlockProgram.Desk

open Workspace

/-- A satellite may be composed at any time: nothing but its units differs then, unless a block that it has
saved stands in a fixed socket of its owner by now. -/
theorem keepsSurroundings_iff (steps : List Step) (s : Satellite) {diff : LayoutDiff}
    {w' : Workspace} (h : (Workspace.compose s).perform
      (run Python.standard.shapes steps).workspace = (.ok diff, w')) :
    (run Python.standard.shapes steps).workspace.KeepsSurroundings s.owner w' ↔
      ¬ (run Python.standard.shapes steps).workspace.DrainsFixed s := by
  have hplain : ∀ shape ∈ (run Python.standard.shapes steps).workspace.shapes.shapes,
      shape.Plain := by
    rw [shapes_run]
    exact Python.standard_plain
  obtain ⟨b, shape, m, hc⟩ := (sound_untyped steps).composed hplain h
  exact ⟨fun hkeeps hdrain => hc.not_keeps hdrain hkeeps, hc.keeps⟩

private theorem perform_of_ok {w : Workspace} {s : Satellite} {diff : LayoutDiff}
    (h : ((Workspace.compose s).perform w).1 = .ok diff) : (Workspace.compose s).perform w =
      (.ok diff, ((Workspace.compose s).perform w).2) := Prod.ext h rfl

/-- An element of a list is in another list by now, and its satellite is composed. -/
theorem keepsSurroundings_of_moved :
    let steps : List Step := [
      .edit (.add ⟨"list"⟩ "lists_create_with" false),
      .edit (.add ⟨"other"⟩ "lists_create_with" false),
      .edit (.add ⟨"item"⟩ "math_number" false),
      .edit (.connectValue ⟨"list"⟩ "ITEM0" ⟨"item"⟩),
      .decompose ⟨"list"⟩, .save 0, .edit (.connectValue ⟨"other"⟩ "ITEM0" ⟨"item"⟩)]
    let d := run Python.standard.shapes steps
    ∃ s ∈ d.satellites, ∃ diff w', (Workspace.compose s).perform d.workspace = (.ok diff, w') ∧
      ¬ d.workspace.DrainsFixed s ∧ d.workspace.KeepsSurroundings s.owner w' := by
  intro steps d
  let s := d.satellites.get ⟨0, by decide +kernel⟩
  have hs : s ∈ d.satellites := by decide +kernel
  have hok : ∃ diff, ((Workspace.compose s).perform d.workspace).1 = .ok diff :=
    ⟨_, show _ = Except.ok (.mk [] [] ["ITEM0", "ITEM1", "ITEM2"] false) by decide +kernel⟩
  obtain ⟨diff, hok⟩ := hok
  have hdrain : ¬ d.workspace.DrainsFixed s := by
    unfold DrainsFixed
    decide +kernel
  have he := perform_of_ok hok
  exact ⟨s, hs, diff, _, he, hdrain, (keepsSurroundings_iff steps s he).mpr hdrain⟩

/-- A condition has moved from a branch that a satellite stands for to the first branch, whose socket is
fixed; composing takes it back. -/
theorem drained_of_stale_connections :
    let steps : List Step := [
      .edit (.add ⟨"branch"⟩ "controls_if" false),
      .edit (.add ⟨"condition"⟩ "logic_boolean" false), .edit (.reshape ⟨"branch"⟩ 1),
      .edit (.connectValue ⟨"branch"⟩ "IF1" ⟨"condition"⟩),
      .decompose ⟨"branch"⟩, .save 0, .edit (.connectValue ⟨"branch"⟩ "IF0" ⟨"condition"⟩)]
    let d := run Python.standard.shapes steps
    ∃ s ∈ d.satellites, ∃ diff w', (Workspace.compose s).perform d.workspace = (.ok diff, w') ∧
      ¬ d.workspace.KeepsSurroundings s.owner w' := by
  intro steps d
  let s := d.satellites.get ⟨0, by decide +kernel⟩
  have hs : s ∈ d.satellites := by decide +kernel
  let w' := ((Workspace.compose s).perform d.workspace).2
  have hok : ∃ diff, ((Workspace.compose s).perform d.workspace).1 = .ok diff :=
    ⟨_, show _ = Except.ok (.mk [] [] ["IF0", "DO0", "IF1", "DO1"] false) by decide +kernel⟩
  obtain ⟨diff, hok⟩ := hok
  have hbefore : d.workspace.parent? ⟨"condition"⟩ = some (.input ⟨"branch"⟩ "IF0") := by
    decide +kernel
  have hafter : w'.parent? ⟨"condition"⟩ = some (.input ⟨"branch"⟩ "IF1") := by decide +kernel
  have hout : ¬ d.workspace.InUnits s.owner ⟨"condition"⟩ := by
    have hempty : ∀ b ∈ d.workspace.find? s.owner, b.unitTargets = [] := by decide +kernel
    rintro ⟨b, hb, c, hc, -⟩
    simp [hempty b hb] at hc
  refine ⟨s, hs, diff, w', perform_of_ok hok, fun hkeeps => ?_⟩
  exact absurd ((hkeeps.outside _ _ hbefore hout).1.symm.trans hafter) (by decide)

end BlockProgram.Desk
