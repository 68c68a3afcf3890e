import BlockProgram.Proofs.Shape.Units
import BlockProgram.Proofs.Workspace.Reshape
import BlockProgram.Workspace.Satellite
import Mathlib.Data.List.Induction

/-! What `compose` plugs in, and what it keeps. It checks neither that the owner is not beneath a block it
plugs in nor that the block fits; where both hold anyway, the workspace stays sound. -/
namespace BlockProgram

open Edit

variable {rooted typed : Prop} {w w' : Workspace}

namespace Workspace

section plan

variable {owner c : BlockId} {n : String} {slots : List (String × Option BlockId)}

/-- A saved block is plugged in again if it is free or stands in a socket of the owner. -/
theorem reattachable_iff : w.reattachable c owner ↔
    w.has c ∧ (w.parent? c = none ∨ ∃ s, w.parent? c = some (.input owner s)) := by
  unfold reattachable has parent?
  cases w.find? c with
  | none => simp
  | some d =>
    dsimp only [Option.bind_some]
    rcases d.parent with _ | ⟨above, s⟩ | before <;> simp

private theorem plan_concat (slot : String × Option BlockId) :
    w.plan owner (slots ++ [slot]) = match slot.2 with
      | none => w.plan owner slots
      | some child =>
        if (w.plan owner slots).any (fun p => p.2 = child) || !w.reattachable child owner then
          w.plan owner slots
        else w.plan owner slots ++ [(slot.1, child)] := by
  unfold plan
  exact List.foldl_concat ..

theorem mem_plan (h : (n, c) ∈ w.plan owner slots) :
    (n, some c) ∈ slots ∧ w.reattachable c owner := by
  induction slots using List.reverseRecOn with
  | nil => simp [plan] at h
  | append_singleton slots slot ih =>
    obtain ⟨name, saved⟩ := slot
    rw [plan_concat] at h
    cases saved with
    | none => exact (ih h).imp_left (List.mem_append_left _)
    | some child =>
      dsimp only at h
      split at h
      · exact (ih h).imp_left (List.mem_append_left _)
      · rename_i hfree
        rcases List.mem_append.mp h with h | h
        · exact (ih h).imp_left (List.mem_append_left _)
        · cases List.mem_singleton.mp h
          obtain ⟨-, hre⟩ : _ ∧ w.reattachable c owner = true := by simpa using hfree
          exact ⟨by simp, hre⟩

/-- If no block is saved twice, all that can be plugged in again is planned. -/
theorem mem_plan_iff
    (hone : ∀ n n' c, (n, some c) ∈ slots → (n', some c) ∈ slots → n = n') :
    (n, c) ∈ w.plan owner slots ↔ (n, some c) ∈ slots ∧ w.reattachable c owner := by
  refine ⟨mem_plan, ?_⟩
  rintro ⟨hslot, hre⟩
  induction slots using List.reverseRecOn with
  | nil => simp at hslot
  | append_singleton slots slot ih =>
    have hrest := ih fun n n' c hn hn' =>
      hone n n' c (List.mem_append_left _ hn) (List.mem_append_left _ hn')
    rw [plan_concat]
    rcases List.mem_append.mp hslot with hslot | hslot
    · cases slot.2 with
      | none => exact hrest hslot
      | some child =>
        dsimp only
        split
        · exact hrest hslot
        · exact List.mem_append_left _ (hrest hslot)
    · cases List.mem_singleton.mp hslot
      dsimp only
      split
      · rename_i htaken
        obtain ⟨p, hp, he⟩ : ∃ p ∈ w.plan owner slots, p.2 = c := by simpa [hre] using htaken
        have hmem : (p.1, some c) ∈ slots := he ▸ (mem_plan (n := p.1) (c := p.2) hp).1
        rw [hone n p.1 c (by simp) (List.mem_append_left _ hmem), ← he]
        exact hp
      · simp

private theorem plan_names_sublist : ((w.plan owner slots).map (·.1)).Sublist (slots.map (·.1)) := by
  induction slots using List.reverseRecOn with
  | nil => simp [plan]
  | append_singleton slots slot ih =>
    rw [plan_concat, List.map_append]
    have hskip := ih.trans (List.sublist_append_left (slots.map (·.1)) [slot.1])
    cases hs : slot.2 with
    | none => exact hskip
    | some child =>
      dsimp only
      split
      · exact hskip
      · rw [List.map_append]
        exact ih.append (.refl _)

/-- Every block is planned for one place. -/
theorem plan_blocks_nodup : ((w.plan owner slots).map (·.2)).Nodup := by
  induction slots using List.reverseRecOn with
  | nil => simp [plan]
  | append_singleton slots slot ih =>
    rw [plan_concat]
    cases hs : slot.2 with
    | none => exact ih
    | some child =>
      dsimp only
      split
      · exact ih
      · rename_i hfree
        have hnew : child ∉ (w.plan owner slots).map (·.2) := by
          intro hm
          obtain ⟨p, hp, he⟩ := List.mem_map.mp hm
          exact hfree (by simpa using Or.inl ⟨p.1, he ▸ hp⟩)
        rw [List.map_append]
        simpa using List.Nodup.concat hnew ih

private theorem zip_names_sublist (l : List String) (saved : List (Option BlockId)) :
    ((l.zip saved).map Prod.fst).Sublist l := by
  induction l generalizing saved with
  | nil => simp
  | cons n l ih =>
    cases saved with
    | nil => simp
    | cons _ saved => simpa using ih saved

private theorem slots_names_sublist (units : List SatelliteUnit) (names : List (List String)) :
    ((Workspace.slots units names).map (·.1)).Sublist names.flatten := by
  induction units generalizing names with
  | nil => simp [Workspace.slots]
  | cons u units ih =>
    cases names with
    | nil => simp [Workspace.slots]
    | cons l names =>
      simpa [Workspace.slots] using (zip_names_sublist l u.saved).append (ih names)

end plan

section replant

variable {owner : BlockId} {b : Block} {shape : Shape} {m : Mutation}
  {plan : List (String × BlockId)}

/-- A plan gives every block one place, and every place one block. The places are sockets of units. -/
structure Plan (shape : Shape) (m : Mutation) (plan : List (String × BlockId)) : Prop where
  names : (plan.map (·.1)).Nodup
  blocks : (plan.map (·.2)).Nodup
  structural : ∀ p ∈ plan, ∃ k ∈ shape.layout m, k.name = p.1 ∧ k.structural

/-- The sockets of units are empty, and the planned blocks are free. -/
structure Cleared (owner : BlockId) (b : Block) (plan : List (String × BlockId))
    (w w' : Workspace) : Prop where
  pruned : Pruned w w'
  emptied : ∀ k ∈ b.sockets, k.structural → w'.occupant? (.input owner k.name) = none
  free : ∀ p ∈ plan, w'.has p.2 ∧ w'.parent? p.2 = none

private theorem Sound.ensures_detachAll (h : Sound rooted typed w)
    (plan : List (String × BlockId)) :
    (plan.forM fun p => detach p.2).Ensures w
      (fun _ w' => Sound rooted typed w' ∧ Culled w w' ∧
        ∀ p ∈ plan, w'.has p.2 ∧ w'.parent? p.2 = none)
      fun _ w' => Sound rooted typed w' ∧ Culled w w' := by
  refine (ensures_forM (I := fun rest w' => Sound rooted typed w' ∧ Culled w w' ∧
    ∀ p ∈ plan, p ∈ rest ∨ w'.has p.2 ∧ w'.parent? p.2 = none) ?_ plan w
    ⟨h, .refl w, fun p hp => .inl hp⟩).mono ?_ fun _ _ h' => h'
  · rintro q rest w' ⟨h', hp, hfree⟩
    rw [h'.linked.ensures_detach]
    cases hq : w'.find? q.2 with
    | none => exact ⟨h', hp⟩
    | some d =>
      refine ⟨h'.detached q.2, hp.trans (culled_detached w' q.2), fun p hpm => ?_⟩
      rcases hfree p hpm with hm | ⟨hhas, htop⟩
      · rcases List.mem_cons.mp hm with rfl | hm
        · exact .inr ⟨by simpa using has_iff.mpr ⟨d, hq⟩, by simp [parent?_detached]⟩
        · exact .inl hm
      · exact .inr ⟨by simpa using hhas, (pruned_detached w' q.2).top htop⟩
  · rintro _ w' ⟨h', hp, hfree⟩
    exact ⟨h', hp, fun p hpm => (hfree p hpm).resolve_left (by simp)⟩

/-- Take out what the structural sockets of a block hold, and the planned blocks wherever they are. -/
def clearUnits (b : Block) (plan : List (String × BlockId)) : Edit EditError Unit := do
  ((b.sockets.filter (·.structural)).filterMap (·.target)).forM fun child =>
    if plan.any fun p => p.2 = child then detach child else sever child
  plan.forM fun p => detach p.2

/-- A block is rebuilt after its units are cleared, and then the planned blocks come in. -/
theorem ensures_replant_iff {ok : Unit → Workspace → Prop} {refused : EditError → Workspace → Prop}
    (hb : w.find? owner = some b) : (replant owner shape m plan).Ensures w ok refused ↔
      (clearUnits b plan).Ensures w (fun _ w' => (do
        rebuild owner shape m false
        plan.forM fun p => attachInput owner p.1 p.2 : Edit EditError Unit).Ensures w' ok refused)
        refused := by
  unfold replant clearUnits
  simp only [ensures_bind, ensures_require, hb]

theorem Sound.ensures_clearUnits (h : Sound rooted typed w) (hb : w.find? owner = some b) :
    (clearUnits b plan).Ensures w
      (fun _ w' => Sound rooted typed w' ∧ Cleared owner b plan w w' ∧ w.Sheds w')
      fun _ w' => Sound rooted typed w' ∧ w.Sheds w' := by
  unfold clearUnits
  rw [ensures_bind]
  refine (h.ensures_clear (fun c w h => ?_) _).mono (fun _ w1 ⟨h1, hp1, hclear⟩ => ?_)
    fun _ _ h' => ⟨h'.1, h'.2.sheds⟩
  · split
    · rw [h.linked.ensures_detach]
      cases hc : w.find? c with
      | none => rfl
      | some d => exact ⟨h.detached c, culled_detached w c, by simp [parent?_detached]⟩
    · exact h.ensures_sever c
  · refine (h1.ensures_detachAll plan).mono (fun _ w2 ⟨h2, hp2, hfree⟩ =>
      ⟨h2, ?_, (hp1.trans hp2).sheds⟩) fun _ _ h' => ⟨h'.1, (hp1.trans h'.2).sheds⟩
    have hp := (hp1.trans hp2).toPruned
    refine ⟨hp, fun k hk hs => ?_, hfree⟩
    have hfound := Block.socket?_of_mem (h.linked.socket_names hb) hk
    cases ht : k.target with
    | none =>
      refine hp.vacant h.linked h2.linked ?_
      simp [occupant?, hb, Block.target?, hfound, ht]
    | some c =>
      refine hp.vacated h.linked h2.linked (occupant?_of_socket? hb hfound ht) (hp2.top ?_)
      exact hclear c (List.mem_filterMap.mpr ⟨k, List.mem_filter.mpr ⟨hk, hs⟩, ht⟩)

/-- What a socket outside the units holds stays where it is. -/
theorem Cleared.kept (hc : Cleared owner b plan w w') (h : Sound rooted typed w)
    (hl : w'.Linked) (hb : w.find? owner = some b) (hshape : w.shapes.get? b.type = some shape)
    {s : String} {q : BlockId} (hq : w'.occupant? (.input owner s) = some q) (m : Mutation) :
    ∃ k ∈ shape.layout m, k.name = s ∧ k.structural = false := by
  have ho := (h.linked.link _ _).mpr (hc.pruned.parent _ _ ((hl.link _ _).mp hq))
  obtain ⟨k, hk, -⟩ := Option.bind_eq_some_iff.mp
    (by simpa [occupant?, hb, Block.target?] using ho)
  have hmem := List.mem_of_find?_eq_some hk
  have hname : k.name = s := by simpa using List.find?_some hk
  have hfixed : k.structural = false := by
    by_contra hs
    simp [← hname, hc.emptied k hmem (by simpa using hs)] at hq
  have hold : k.emptied ∈ shape.layout b.mutation :=
    (h.layout hb hshape).1 ▸ List.mem_map_of_mem hmem
  exact ⟨k.emptied, Shape.mem_layout_of_fixed hold hfixed m, hname, hfixed⟩

theorem Cleared.bare?_owner (hc : Cleared owner b plan w w') (hb : w.find? owner = some b)
    (hown : w'.has owner) : w'.bare? owner = some b.bare := by
  rw [hc.pruned.bare?_eq hown]
  simp [bare?, hb]

/-- The cleared owner is rebuilt, unless it was lost together with what a unit held. -/
theorem Cleared.ensures_rebuild (hc : Cleared owner b plan w w') (h : Sound rooted typed w)
    (h' : Sound rooted typed w') (hb : w.find? owner = some b)
    (hshape : w.shapes.get? b.type = some shape) {ok : Unit → Workspace → Prop}
    {refused : EditError → Workspace → Prop}
    (hok : w'.has owner → ∀ w'', Rebuilt w' owner shape m w'' → ok () w'')
    (hlost : ¬ w'.has owner → ∀ err, refused err w') :
    (rebuild owner shape m false).Ensures w' ok refused := by
  cases hb' : w'.find? owner with
  | none =>
    unfold rebuild
    rw [ensures_bind, ensures_require, hb']
    exact hlost (by simp [has, hb']) _
  | some b' =>
    have hown : w'.has owner := has_iff.mpr ⟨b', hb'⟩
    have hbare : b'.bare = b.bare := by simpa [bare?, hb'] using hc.bare?_owner hb hown
    have hshape' : w'.shapes.get? b'.type = some shape := by
      rw [hc.pruned.shapes, show b'.type = b'.bare.type from rfl, hbare]
      exact hshape
    refine (h'.ensures_rebuild hb' hshape' fun s q hq => ?_).mono (fun _ => hok hown)
      fun _ _ hr => hr
    obtain ⟨k, hk, hname, hfixed⟩ := hc.kept h h'.linked hb hshape hq m
    exact ⟨k, hk, hname, .inr hfixed⟩

/-- Every planned block fits the socket that it is planned for. -/
def Fitting (typed : Prop) (shape : Shape) (m : Mutation) (plan : List (String × BlockId))
    (w : Workspace) : Prop :=
  ∀ p ∈ plan, ∃ k ∈ shape.layout m, k.name = p.1 ∧ k.kind ≠ .dummy ∧
    ∃ d, w.bare? p.2 = some d ∧ (typed → k.takes d.connectors)

theorem Fitting.untyped (h : Fitting typed shape m plan w) : Fitting False shape m plan w :=
  fun p hp =>
    let ⟨k, hk, hname, hplain, d, hd, _⟩ := h p hp
    ⟨k, hk, hname, hplain, d, hd, False.elim⟩

/-- The owner is rebuilt and the planned blocks can be plugged in, except those that are in already. -/
structure Ready (rooted typed : Prop) (owner : BlockId) (plan rest : List (String × BlockId))
    (w : Workspace) : Prop where
  sound : Sound rooted typed w
  names : (rest.map (·.1)).Nodup
  blocks : (rest.map (·.2)).Nodup
  free : ∀ p ∈ rest, w.has p.2 ∧ w.parent? p.2 = none
  offers : ∀ p ∈ rest, w.offers (.input owner p.1)
  vacant : ∀ p ∈ rest, w.occupant? (.input owner p.1) = none
  rooted : rooted → ∀ p ∈ rest, ¬ w.Under p.2 owner
  fits : ∀ p ∈ rest, w.has owner → w.Fits typed (.input owner p.1) p.2
  planted : ∀ p ∈ plan, p ∈ rest ∨ w.parent? p.2 = some (.input owner p.1)

private theorem Ready.attached {p : String × BlockId} {rest : List (String × BlockId)}
    (h : Ready rooted typed owner plan (p :: rest) w) :
    Ready rooted typed owner plan rest (w.attached (.input owner p.1) p.2) := by
  have ho := h.offers p (by simp)
  obtain ⟨hhas, htop⟩ := h.free p (by simp)
  have hname := (List.nodup_cons.mp h.names).1
  have hblock := (List.nodup_cons.mp h.blocks).1
  have hne {q : String × BlockId} (hq : q ∈ rest) : q.2 ≠ p.2 ∧ q.1 ≠ p.1 :=
    ⟨fun he => hblock (List.mem_map.mpr ⟨q, hq, he⟩),
      fun he => hname (List.mem_map.mpr ⟨q, hq, he⟩)⟩
  refine ⟨h.sound.attached ho (h.vacant p (by simp)) hhas htop (by simp)
    (fun hr => h.rooted hr p (by simp)) (h.fits p (by simp) (has_of_offers ho)),
    (List.nodup_cons.mp h.names).2, (List.nodup_cons.mp h.blocks).2, fun q hq => ?_,
    fun q hq => ?_, fun q hq => ?_, fun hr q hq hu => ?_, fun q hq hown => ?_, fun q hq => ?_⟩
  · rw [has_attached, parent?_attached hhas, if_neg (hne hq).1]
    exact h.free q (List.mem_cons_of_mem _ hq)
  · rw [offers_congr bare?_attached]
    exact h.offers q (List.mem_cons_of_mem _ hq)
  · rw [occupant?_attached ho, if_neg (by simpa using (hne hq).2)]
    exact h.vacant q (List.mem_cons_of_mem _ hq)
  · have hnot := h.rooted hr q (List.mem_cons_of_mem _ hq)
    exact (Under.attached hhas hu).elim hnot fun h' => hnot h'.2
  · exact (h.fits q (List.mem_cons_of_mem _ hq) (by simpa using hown)).congr bare?_attached
      bare?_attached
  · rw [parent?_attached hhas]
    rcases h.planted q hq with hm | hp
    · rcases List.mem_cons.mp hm with rfl | hm
      · exact .inr (if_pos rfl)
      · exact .inl hm
    · refine .inr ?_
      rw [if_neg fun he => ?_]
      · exact hp
      · rw [he, htop] at hp
        cases hp

private theorem Ready.ensures_plant (h : Ready rooted typed owner plan plan w) :
    (plan.forM fun p => attachInput owner p.1 p.2).Ensures w
      (fun _ w' => Ready rooted typed owner plan [] w' ∧ ∀ x, w'.bare? x = w.bare? x)
      fun _ _ => False := by
  refine ensures_forM (I := fun rest w' => Ready rooted typed owner plan rest w' ∧
    ∀ x, w'.bare? x = w.bare? x) ?_ plan w ⟨h, fun _ => rfl⟩
  rintro p rest w' ⟨h', hbare⟩
  exact Workspace.ensures_attachInput (h'.free p (by simp)).1
    (fun _ => ⟨h'.attached, fun x => bare?_attached.trans (hbare x)⟩)
    fun hno => absurd (h'.offers p (by simp)) hno

/-- What `replant` leads to, besides a sound workspace. -/
structure Replanted (owner : BlockId) (shape : Shape) (m : Mutation)
    (plan : List (String × BlockId)) (w w' : Workspace) : Prop where
  sheds : w.Sheds w'
  planted : ∀ p ∈ plan, w'.parent? p.2 = some (.input owner p.1)
  bare : ∀ x d', w'.bare? x = some d' → ∃ d, w.bare? x = some d ∧
    d' = if x = owner then d.reshaped shape m else d

/-- The rebuilt owner has the sockets that are planned for. -/
theorem Plan.offers {w2 w3 : Workspace} (hplan : Plan shape m plan) (hdistinct : shape.Distinct)
    (hown : w2.bare? owner = some b.bare) (hr : Rebuilt w2 owner shape m w3)
    {p : String × BlockId} (hp : p ∈ plan) : w3.offers (.input owner p.1) := by
  obtain ⟨k, hk, hname, -⟩ := hplan.structural p hp
  exact offers_of_bare? (hr.self hown) (hname ▸ Block.socket?_of_mem
    (b := b.bare.reshaped shape m) (hdistinct m) hk)

/-- What the assumptions about a plan are worth once the owner is rebuilt. -/
theorem Cleared.ready {w2 w3 : Workspace} (hc : Cleared owner b plan w w2)
    (h : Sound rooted typed w) (h2 : Sound rooted typed w2) (hr : Rebuilt w2 owner shape m w3)
    (hown : w2.has owner) (hb : w.find? owner = some b) (hshape : w.shapes.get? b.type = some shape)
    (hsame : shape.connectorsOf m = shape.connectorsOf b.mutation) (hplan : Plan shape m plan)
    (hrooted : rooted → ∀ p ∈ plan, ¬ w.Under p.2 owner)
    (hfits : Fitting typed shape m plan w) : Ready rooted typed owner plan plan w3 := by
  have hdistinct := h.distinct shape (ShapeRegistry.mem_of_get? hshape).1
  have hown2 := hc.bare?_owner hb hown
  have hparent (x : BlockId) (place : Attachment) (hp : w3.parent? x = some place) :
      w2.parent? x = some place := (hr.parent_of hp).1
  have hself := hr.self hown2
  refine ⟨h2.rebuilt hown2 (hc.pruned.shapes ▸ hshape) hr fun hne => absurd hsame.symm hne,
    hplan.names, hplan.blocks, fun p hp => ⟨by rw [hr.has]; exact (hc.free p hp).1, ?_⟩,
    fun p hp => hplan.offers hdistinct hown2 hr hp, fun p hp => ?_,
    fun hg p hp hu => hrooted hg p hp (hc.pruned.under (hu.mono hparent)), fun p hp _ => ?_,
    fun p hp => .inl hp⟩
  · cases hq : w3.parent? p.2 with
    | none => rfl
    | some q => exact absurd ((hc.free p hp).2.symm.trans (hparent _ _ hq)) (by simp)
  · rw [hr.occupant, if_neg (by simp)]
    cases ho : w2.occupant? (.input owner p.1) with
    | none => rfl
    | some q =>
      -- a socket of that name belongs to a unit, and those are empty
      obtain ⟨k, hk, hname, hfixed⟩ := hc.kept h h2.linked hb hshape ho m
      obtain ⟨k', hk', hname', hs⟩ := hplan.structural p hp
      rw [hdistinct.agree hk hk' (hname.trans hname'.symm), hs] at hfixed
      cases hfixed
  · obtain ⟨k, hk, hname, hplain, d, hd, htakes⟩ := hfits p hp
    have hfound : (b.bare.reshaped shape m).socket? p.1 = some k :=
      hname ▸ Block.socket?_of_mem (b := b.bare.reshaped shape m) (hdistinct m) hk
    have hd2 : w2.bare? p.2 = some d := (hc.pruned.bare?_eq (hc.free p hp).1).trans hd
    by_cases he : p.2 = owner
    · refine ⟨_, k, _, hself, hfound, he ▸ hself, hplain, fun ht => ?_⟩
      cases Option.some.inj (hown2.symm.trans (he ▸ hd2))
      change k.takes (shape.connectorsOf m)
      rw [hsame, ← (h.layout hb hshape).2]
      exact htakes ht
    · exact ⟨_, k, d, hself, hfound, by rw [hr.bare, if_neg he, hd2], hplain, htakes⟩

/-- Replanting puts every planned block where the plan says. The workspace stays sound if no planned
block has the owner beneath it and each fits its socket; if it is refused, only stand-ins are lost. -/
theorem Sound.ensures_replant (h : Sound rooted typed w) (hb : w.find? owner = some b)
    (hshape : w.shapes.get? b.type = some shape)
    (hsame : shape.connectorsOf m = shape.connectorsOf b.mutation) (hplan : Plan shape m plan)
    (hplain : Fitting False shape m plan w) :
    (replant owner shape m plan).Ensures w
      (fun _ w' => Replanted owner shape m plan w w' ∧ ((rooted → ∀ p ∈ plan, ¬ w.Under p.2 owner) →
        Fitting typed shape m plan w → Sound rooted typed w'))
      fun _ w' => Sound rooted typed w' ∧ w.Sheds w' := by
  rw [ensures_replant_iff hb]
  refine (h.ensures_clearUnits hb).mono (fun _ w2 ⟨h2, hc, hsheds⟩ => ?_) fun _ _ h' => h'
  rw [ensures_bind]
  refine hc.ensures_rebuild h h2 hb hshape (fun hown w3 hr => ?_) fun _ _ => ⟨h2, hsheds⟩
  -- they are plugged in whether or not the workspace stays sound
  have hplanted := (hc.ready h.weaken h2.weaken
    hr hown hb hshape hsame hplan False.elim hplain).ensures_plant
  have hreplanted : (plan.forM fun p => attachInput owner p.1 p.2).Ensures w3
      (fun _ w' => Replanted owner shape m plan w w') fun _ _ => False := by
    refine hplanted.mono (fun _ w4 hfilled => ?_) fun _ _ h' => h'
    obtain ⟨h4, hbare4⟩ := hfilled
    refine ⟨hsheds.congr fun x => ?_, ?_, ?_⟩
    · rw [has_congr (hbare4 _), hr.has]
    · exact fun p hp => (h4.planted p hp).resolve_left (by simp)
    · intro x d' hd'
      rw [hbare4, hr.bare] at hd'
      split at hd'
      · rename_i hx
        obtain ⟨d, hd, rfl⟩ := Option.map_eq_some_iff.mp hd'
        exact ⟨d, hc.pruned.bare x d hd, by rw [if_pos hx]⟩
      · rename_i hx
        exact ⟨d', hc.pruned.bare x d' hd', by rw [if_neg hx]⟩
  by_cases hgood : (rooted → ∀ p ∈ plan, ¬ w.Under p.2 owner) ∧ Fitting typed shape m plan w
  · have hready := hc.ready h h2 hr hown hb hshape hsame hplan hgood.1 hgood.2
    exact (hreplanted.and hready.ensures_plant).mono
      (fun _ _ h' => ⟨h'.1, fun _ _ => h'.2.1.sound⟩) fun _ _ h' => h'.1.elim
  · exact hreplanted.mono (fun _ _ h' => ⟨h', fun hr hf => absurd ⟨hr, hf⟩ hgood⟩)
      fun _ _ h' => h'.elim

end replant

end Workspace

/-- The blocks that `compose` plugs in, each with its socket. -/
def Satellite.planned (s : Satellite) (w : Workspace) : List (String × BlockId) :=
  match (w.find? s.owner).bind fun b => w.shapes.get? b.type with
  | some shape => w.plan s.owner (Workspace.slots s.units (shape.unitSocketNames s.kinds))
  | none => []

namespace Workspace

variable {s : Satellite}

/-- What `compose` knows once its checks are passed. -/
structure Composable (s : Satellite) (w : Workspace) (b : Block) (shape : Shape) (m : Mutation) :
    Prop where
  owner : w.find? s.owner = some b
  known : w.shapes.get? b.type = some shape
  units : shape.ofUnits s.kinds = .ok m
  accepts : shape.accepts b.mutation
  few : (shape.limitedUnits m).1 ≤ Mutation.maxUnits

theorem Composable.planned {b : Block} {shape : Shape} {m : Mutation}
    (hc : Composable s w b shape m) :
    s.planned w = w.plan s.owner (Workspace.slots s.units (shape.unitSocketNames s.kinds)) := by
  simp [Satellite.planned, hc.owner, hc.known]

theorem Composable.plan {b : Block} {shape : Shape} {m : Mutation}
    (hc : Composable s w b shape m) (hd : shape.Distinct) : Plan shape m (s.planned w) := by
  have hsub : ((w.plan s.owner (Workspace.slots s.units
      (shape.unitSocketNames s.kinds))).map (·.1)).Sublist (shape.unitSocketNames s.kinds).flatten :=
    plan_names_sublist.trans (slots_names_sublist s.units (shape.unitSocketNames s.kinds))
  rw [hc.planned]
  exact ⟨(hd.nodup_unitSocketNames hc.units).sublist hsub, plan_blocks_nodup, fun p hp =>
    Shape.structural_of_mem_unitSocketNames hc.units (hsub.subset (List.mem_map_of_mem hp))⟩

/-- Once the owner and the kinds of the units are known, composing is a transition and a replanting. -/
theorem ensures_compose_iff {b : Block} {shape : Shape} {ok : LayoutDiff → Workspace → Prop}
    {refused : MutationError → Workspace → Prop} (hb : w.find? s.owner = some b)
    (hshape : w.shapes.get? b.type = some shape)
    (hkinds : ∀ u ∈ s.units, ∃ p ∈ shape.placeholders, p.kind = u.kind) :
    (compose s).Ensures w ok refused ↔
      match shape.transition b.mutation (.compose s.kinds) with
      | .ok (m, diff) => (replant s.owner shape m (s.planned w)).Ensures w
          (fun _ w' => ok diff w') fun err => refused (.edit err)
      | .error err => refused err w := by
  have hnone : (s.units.find? fun u => !shape.placeholders.any fun p => p.kind = u.kind) = none :=
    List.find?_eq_none.mpr fun u hu => by simpa using hkinds u hu
  have hplanned : s.planned w =
      w.plan s.owner (slots s.units (shape.unitSocketNames s.kinds)) := by
    simp [Satellite.planned, hb, hshape]
  unfold compose
  simp only [ensures_bind, ensures_refusedAs, ensures_require, ensures_requireShape, hb, hshape,
    hnone, ensures_ofResult]
  cases shape.transition b.mutation (.compose s.kinds) with
  | error err => rfl
  | ok result =>
    obtain ⟨m, diff⟩ := result
    simp only [ensures_get, ensures_pure, hplanned]

/-- A composition replants the owner by its plan, or else it is refused before anything changes. -/
theorem ensures_compose {ok : LayoutDiff → Workspace → Prop}
    {refused : MutationError → Workspace → Prop}
    (hok : ∀ b shape m, Composable s w b shape m →
      (replant s.owner shape m (s.planned w)).Ensures w
        (fun _ w' => ok (.between shape b.mutation m) w') fun err => refused (.edit err))
    (hrefused : ∀ err, refused err w) : (compose s).Ensures w ok refused := by
  cases hb : w.find? s.owner with
  | none =>
    unfold compose
    rw [ensures_bind, ensures_refusedAs, ensures_require, hb]
    exact hrefused _
  | some b =>
    cases hshape : w.shapes.get? b.type with
    | none =>
      unfold compose
      simp only [ensures_bind, ensures_refusedAs, ensures_require, hb, ensures_requireShape, hshape]
      exact hrefused _
    | some shape =>
      by_cases hkinds : ∀ u ∈ s.units, ∃ p ∈ shape.placeholders, p.kind = u.kind
      · rw [ensures_compose_iff hb hshape hkinds]
        cases ht : shape.transition b.mutation (.compose s.kinds) with
        | error e => exact hrefused _
        | ok result =>
          obtain ⟨m, diff⟩ := result
          obtain ⟨haccepts, hm, hfew, rfl⟩ := Shape.transition_eq_ok.mp ht
          exact hok b shape m ⟨hb, hshape, hm, haccepts, hfew⟩
      · have hfound : ∃ u, (s.units.find? fun u =>
            !shape.placeholders.any fun p => p.kind = u.kind) = some u := by
          refine Option.isSome_iff_exists.mp (List.find?_isSome.mpr ?_)
          simpa using hkinds
        obtain ⟨u, hu⟩ := hfound
        unfold compose
        simp only [ensures_bind, ensures_refusedAs, ensures_require, hb, ensures_requireShape,
          hshape, hu, ensures_throw]
        exact hrefused _

/-- Composing keeps a workspace sound if nothing is plugged in that the owner is beneath, and nothing
that does not fit; where it is refused, it does so in any case. -/
theorem Sound.ensures_compose (h : Sound rooted typed w)
    (hplain : ∀ b shape m, Composable s w b shape m → Fitting False shape m (s.planned w) w) :
    (compose s).Ensures w
      (fun _ w' => ∃ b shape m, Composable s w b shape m ∧
        Replanted s.owner shape m (s.planned w) w w' ∧
        ((rooted → ∀ p ∈ s.planned w, ¬ w.Under p.2 s.owner) →
          Fitting typed shape m (s.planned w) w → Sound rooted typed w'))
      fun _ w' => Sound rooted typed w' ∧ w.Sheds w' := by
  refine Workspace.ensures_compose (fun b shape m hc => ?_) fun _ => ⟨h, .refl w⟩
  have hdistinct := h.distinct shape (ShapeRegistry.mem_of_get? hc.known).1
  have hsame : shape.connectorsOf m = shape.connectorsOf b.mutation := by
    rw [Shape.connectorsOf_of_ofUnits hc.units, Shape.connectorsOf_of_ofUnits hc.units]
  exact (h.ensures_replant hc.owner hc.known hsame (hc.plan hdistinct) (hplain b shape m hc)).mono
    (fun _ _ h' => ⟨b, shape, m, hc, h'⟩) fun _ _ h' => h'

end Workspace

end BlockProgram
