import BlockProgram.Proofs.Workspace.Transplant

/-! Which blocks of a forest lose their places when one of its blocks takes another mutation, and what is
lost with them: the stand-ins among them, each with all that was beneath it, and no other block. -/
namespace BlockProgram

/-- What the sockets of the given names hold. -/
def Block.targetsAt (b : Block) (names : List String) : List BlockId :=
  (b.sockets.filter fun s => s.name ∈ names).filterMap (·.target)

namespace Workspace

open Edit

variable {typed : Prop} {w w' w'' : Workspace} {id c x : BlockId} {b : Block} {shape : Shape}
  {m : Mutation} {names : List String} {cut : List BlockId} {s : Satellite}

/-- `w'` has the blocks of `w`, without the stand-ins of `cut` and what was beneath them. -/
def Evicts (w : Workspace) (cut : List BlockId) (w' : Workspace) : Prop :=
  ∀ x, w'.has x ↔ w.has x ∧ ¬ w.Dropped w.standIn cut x

theorem Evicts.of_has (h : ∀ x, w'.has x = w.has x) : w.Evicts [] w' := fun x => by
  simp [h, Dropped]

theorem Evicts.congr (h : w.Evicts cut w') (hhas : ∀ x, w''.has x = w'.has x) : w.Evicts cut w'' := by
  intro x
  rw [hhas]
  exact h x

theorem CutOff.evicts {drop : BlockId → Bool} {done : List BlockId} (h : CutOff w drop done w')
    (hcut : ∀ x, w.Dropped drop done x ↔ w.Dropped w.standIn cut x) : w.Evicts cut w' := by
  intro x
  rw [← hcut]
  by_cases hx : w.Dropped drop done x
  · simp [h.gone x hx, hx]
  · rw [has_congr (h.bare x hx)]
    simp [hx]

/-- Of the blocks that lose their sockets, those that are planned for another one are spared. -/
theorem dropped_spare {plan : List (String × BlockId)} : w.Dropped (w.spare plan) cut x ↔
    w.Dropped w.standIn (cut.filter fun c => !plan.any fun p => p.2 = c) x := by
  simp only [Dropped, spare, List.mem_filter, standIn_eq, Bool.and_eq_true, and_assoc]

theorem Linked.mem_targetsAt (h : w.Linked) (hb : w.find? id = some b) :
    c ∈ b.targetsAt names ↔ ∃ n ∈ names, w.parent? c = some (.input id n) := by
  unfold Block.targetsAt
  rw [h.mem_targets hb]
  constructor
  · rintro ⟨k, -, hk, hp⟩
    exact ⟨k.name, by simpa using hk, hp⟩
  · rintro ⟨n, hn, hp⟩
    obtain ⟨k, hk, -⟩ := Option.bind_eq_some_iff.mp
      (by simpa [occupant?, hb, Block.target?] using (h.link _ _).mpr hp)
    have hname : k.name = n := by simpa using List.find?_some hk
    exact ⟨k, List.mem_of_find?_eq_some hk, by simpa [hname] using hn, hname ▸ hp⟩

/-- What a block of a forest holds does not depend on the place of the block. -/
theorem Unplugged.evicts (hu : Unplugged True typed w id w') (h : Sound True typed w) {b' : Block}
    (hb : w.find? id = some b) (hb' : w'.find? id = some b')
    (he : w'.Evicts (b'.targetsAt names) w'') : w.Evicts (b.targetsAt names) w'' := by
  have ha := h.acyclic trivial
  have hmem (c : BlockId) : c ∈ b'.targetsAt names ↔ c ∈ b.targetsAt names := by
    rw [h.linked.mem_targetsAt hb, hu.sound.linked.mem_targetsAt hb']
    refine exists_congr fun n => and_congr_right fun _ => ⟨fun hp => ?_, fun hp => ?_⟩
    · refine (hu.parent c _ hp).resolve_right fun ⟨_, hself⟩ => ?_
      exact ha.not_under hself .self
    · rw [hu.kept c ?_ (by simp [hp]), hp]
      rintro rfl
      exact ha.not_under hp .self
  have hunder {c x : BlockId} (hc : c ∈ b.targetsAt names) : w'.Under c x ↔ w.Under c x := by
    obtain ⟨n, -, hp⟩ := (h.linked.mem_targetsAt hb).mp hc
    have habove : ¬ w.Under c id := ha.not_under hp
    refine ⟨hu.under, fun hcx => hcx.keep fun y hy _ hne => hu.kept y ?_ fun hnext => ?_⟩
    · rintro rfl
      exact habove hy
    · cases hy with
      | self => exact hne rfl
      | step hp' hy =>
        cases Option.some.inj (hnext.symm.trans hp')
        exact habove hy
  intro x
  have hdropped : w'.Dropped w'.standIn (b'.targetsAt names) x ↔
      w.Dropped w.standIn (b.targetsAt names) x := by
    refine exists_congr fun c => ?_
    rw [hmem]
    refine and_congr_right fun hc => ?_
    rw [hunder hc, standIn_eq, hu.bare, ← standIn_eq]
  rw [he, hdropped, has_congr (hu.bare _)]

/-- `w'` is `w` with what the sockets of the given names held out of them, and the block then rebuilt. -/
def Shed (w : Workspace) (id : BlockId) (b : Block) (names : List String) (shape : Shape)
    (m : Mutation) (w' : Workspace) : Prop :=
  ∃ w₁, CutOff w w.standIn (b.targetsAt names) w₁ ∧ Rebuilt w₁ id shape m w'

theorem Shed.evicts (h : w.Shed id b names shape m w') : w.Evicts (b.targetsAt names) w' := by
  obtain ⟨w₁, hcut, hr⟩ := h
  exact (hcut.evicts fun _ => .rfl).congr fun _ => hr.has

/-- The sockets that a mutation removes are emptied, and the block is rebuilt. -/
theorem Sound.ensures_shed (h : Sound True typed w) (hb : w.find? id = some b)
    (hshape : w.shapes.get? b.type = some shape) :
    (shed id shape m (LayoutDiff.between shape b.mutation m).removed).Ensures w
      (fun _ => w.Shed id b (LayoutDiff.between shape b.mutation m).removed shape m)
      fun _ _ => False := by
  have ha := h.acyclic trivial
  unfold shed
  rw [ensures_bind, ensures_require, hb]
  dsimp only
  rw [ensures_bind]
  have hsever (c : BlockId) : w.standIn c = false ∧ sever c = detach c ∨
      w.standIn c = (w.bare? c).any (·.shadow) ∧ sever c = sever c := .inr ⟨standIn_eq, rfl⟩
  refine (h.linked.ensures_cutOff ha hb rfl hsever).mono (fun _ w₁ hcut => ?_) fun _ _ h' => h'
  have hself : w₁.bare? id = some b.bare := by
    rw [hcut.bare id (ha.not_dropped_owner h.linked hb)]
    simp [bare?, hb]
  obtain ⟨b', hb', hbare⟩ := Option.map_eq_some_iff.mp hself
  have hshape' : w₁.shapes.get? b'.bare.type = some shape := by
    rw [hcut.shapes, hbare]
    exact hshape
  have h' : Sound True typed w₁ := h.of_pruned hcut.pruned hcut.linked
  refine (h'.ensures_rebuild hb' hshape' fun s q hq => ?_).mono (fun _ _ hr => ⟨w₁, hcut, hr⟩)
    fun _ _ h'' => h''
  obtain ⟨k, hk, hname⟩ := h.unremoved hb hshape hcut.linked hcut.pruned hcut.free hq
  exact ⟨k, hk, hname, .inl rfl⟩

/-- A block whose connectors change is unplugged before it sheds anything. Nothing refuses it any more. -/
theorem Sound.ensures_applyDiff_shed (h : Sound True typed w) (hb : w.find? id = some b)
    (hshape : w.shapes.get? b.type = some shape) :
    (applyDiff id shape m (.between shape b.mutation m)).Ensures w
      (fun _ w' => if shape.connectorsOf m = shape.connectorsOf b.mutation then
          w.Shed id b (LayoutDiff.between shape b.mutation m).removed shape m w'
        else ∃ b', (w.healed id).find? id = some b' ∧ b'.bare = b.bare ∧
          (w.healed id).Shed id b' (LayoutDiff.between shape b.mutation m).removed shape m w')
      fun _ _ => False := by
  rw [applyDiff_eq]
  split
  · rename_i hchanged
    have hne : shape.connectorsOf m ≠ shape.connectorsOf b.mutation :=
      fun he => by simp [LayoutDiff.between, he] at hchanged
    rw [ensures_bind]
    refine h.linked.ensures_unplug (fun _ => ?_) fun hno => by simp [hb] at hno
    have hu := h.healed id
    obtain ⟨b', hb', hbare⟩ : ∃ b', (w.healed id).find? id = some b' ∧ b'.bare = b.bare :=
      Option.map_eq_some_iff.mp ((hu.bare id).trans (bare?_of_find? hb))
    have hshape' : (w.healed id).shapes.get? b'.bare.type = some shape := by
      rw [hu.shapes, hbare]
      exact hshape
    rw [← Block.mutation_of_bare hbare] at hne ⊢
    refine (hu.sound.ensures_shed hb' hshape').mono (fun _ _ hs => ?_) fun _ _ h' => h'
    rw [if_neg hne]
    exact ⟨b', hb', hbare, hs⟩
  · rename_i hkept
    have he : shape.connectorsOf b.mutation = shape.connectorsOf m := by
      simpa [LayoutDiff.between] using hkept
    simpa only [if_pos he.symm] using h.ensures_shed hb hshape

/-- In a forest a new layout evicts exactly what the removed sockets hold. -/
theorem Sound.ensures_applyDiff_forest (h : Sound True typed w) (hb : w.find? id = some b)
    (hshape : w.shapes.get? b.type = some shape) :
    (applyDiff id shape m (.between shape b.mutation m)).Ensures w
      (fun _ => w.Evicts (b.targetsAt (LayoutDiff.between shape b.mutation m).removed))
      fun _ _ => False := by
  refine (h.ensures_applyDiff_shed hb hshape).mono (fun _ w' hs => ?_) fun _ _ h' => h'
  split at hs
  · exact hs.evicts
  · obtain ⟨b', hb', -, hs⟩ := hs
    exact (h.healed id).evicts h hb hb' hs.evicts

/-- What the sockets hold that an event removes from a block. -/
def unhoused (w : Workspace) (id : BlockId) (event : Mutation.Event) : List BlockId :=
  match w.find? id with
  | none => []
  | some b =>
    match w.shapes.get? b.type with
    | none => []
    | some shape =>
      match shape.transition b.mutation event with
      | .ok (_, diff) => b.targetsAt diff.removed
      | .error _ => []

/-- What the sockets hold that are removed when a field is set. -/
def unhousedByField (w : Workspace) (id : BlockId) (name : String) (value : FieldValue) : List BlockId :=
  match (w.find? id).bind fun b => w.shapes.get? b.type with
  | none => []
  | some shape => (shape.fieldEvent? name value).elim [] (w.unhoused id)

/-- What the units of the owner of a satellite hold and the satellite does not. -/
def unhousedByUnits (w : Workspace) (s : Satellite) : List BlockId :=
  match w.find? s.owner with
  | none => []
  | some b => b.unitTargets.filter fun c => !(s.planned w).any fun p => p.2 = c

end Workspace

end BlockProgram
