import BlockProgram.Proofs.Shape.Layout
import BlockProgram.Proofs.Workspace.Walk

/-! What every edit keeps. Two parts of it are optional, that no links form a circle and that every
block fits its place: each of them is kept also where the other one fails. -/
namespace BlockProgram

/-- Whether a block with the given connectors may be plugged into a socket. -/
def Socket.takes (s : Socket) (c : Connectors) : Bool :=
  match s.kind with
  | .value => c.output && typesFit s.accepts c.types
  | .statement => c.previous
  | .dummy => false

@[simp] theorem Socket.takes_emptied (s : Socket) (c : Connectors) :
    s.emptied.takes c = s.takes c := rfl

theorem Shape.map_emptied_layout (shape : Shape) (m : Mutation) :
    (shape.layout m).map Socket.emptied = shape.layout m := by
  refine (List.map_congr_left (g := fun k => k) fun k hk => ?_).trans (List.map_id _)
  simp [Socket.emptied, ← shape.target_of_mem_layout hk]

/-- An expression is not part of a chain. Where links may form circles a block may follow itself, so a
variant that can be followed has to be one that can follow. -/
structure ShapeRegistry.Regular (rooted : Prop) (registry : ShapeRegistry) : Prop where
  expression : ∀ shape ∈ registry.shapes, ∀ m, (shape.connectorsOf m).output →
    (shape.connectorsOf m).next = false
  variant : ¬ rooted → ∀ shape ∈ registry.shapes, ∀ m m',
    shape.connectorsOf m ≠ shape.connectorsOf m' →
      (shape.connectorsOf m').next → (shape.connectorsOf m').previous

namespace Workspace

open Edit

/-- Whether a block may stand in a place. Labels are no places, typed or not. -/
def Fits (w : Workspace) (typed : Prop) (place : Attachment) (c : BlockId) : Prop :=
  match place with
  | .input p s => ∃ b k d, w.bare? p = some b ∧ b.socket? s = some k ∧ w.bare? c = some d ∧
      k.kind ≠ .dummy ∧ (typed → k.takes d.connectors)
  | .next _ => ∃ d, w.bare? c = some d ∧ (typed → d.connectors.previous)

/-- A block looks as its shape says for its mutation. -/
def Shaped (shapes : ShapeRegistry) (b : Block) : Prop :=
  ∃ shape, shapes.get? b.type = some shape ∧ b.sockets = shape.layout b.mutation ∧
    b.connectors = shape.connectorsOf b.mutation

structure Sound (rooted typed : Prop) (w : Workspace) : Prop where
  distinct : w.shapes.Distinct
  regular : typed → w.shapes.Regular rooted
  linked : w.Linked
  shaped : ∀ x b, w.bare? x = some b → Shaped w.shapes b
  /-- Only a block that can be followed is followed. -/
  follows : ∀ p c, w.parent? c = some (.next p) → ∃ b, w.bare? p = some b ∧ b.connectors.next
  acyclic : rooted → w.Acyclic
  fits : ∀ place c, w.parent? c = some place → w.Fits typed place c

/-- A block without links. -/
structure Free (w : Workspace) (id : BlockId) : Prop where
  parent : w.parent? id = none
  occupant : ∀ place, place.block = id → w.occupant? place = none

/-- Only links and blocks are lost on the way from `w` to `w'`. -/
structure Pruned (w w' : Workspace) : Prop where
  shapes : w'.shapes = w.shapes
  bare : ∀ x b, w'.bare? x = some b → w.bare? x = some b
  parent : ∀ x place, w'.parent? x = some place → w.parent? x = some place

variable {rooted typed : Prop} {w w' w'' : Workspace} {id x c p : BlockId} {place : Attachment}

theorem exists_bare_of_has (h : w.has x) : ∃ b, w.bare? x = some b :=
  Option.isSome_iff_exists.mp (by rwa [← has_iff_bare?])

theorem has_of_bare? {b : Block} (h : w.bare? x = some b) : w.has x := by
  rw [has_iff_bare?, h]
  rfl

theorem Fits.congr (h : w.Fits typed place c) (hp : w'.bare? place.block = w.bare? place.block)
    (hc : w'.bare? c = w.bare? c) : w'.Fits typed place c := by
  cases place with
  | input p s =>
    obtain ⟨b, k, d, hb, hk, hd, ht⟩ := h
    exact ⟨b, k, d, hp.trans hb, hk, hc.trans hd, ht⟩
  | next p =>
    obtain ⟨d, hd, ht⟩ := h
    exact ⟨d, hc.trans hd, ht⟩

theorem Fits.weaken {typed' : Prop} (h : w.Fits typed place c) (ht : typed' → typed) :
    w.Fits typed' place c := by
  cases place with
  | input p s =>
    obtain ⟨b, k, d, hb, hk, hd, hplain, htakes⟩ := h
    exact ⟨b, k, d, hb, hk, hd, hplain, fun t => htakes (ht t)⟩
  | next p =>
    obtain ⟨d, hd, hprev⟩ := h
    exact ⟨d, hd, fun t => hprev (ht t)⟩

namespace Pruned

theorem refl (w : Workspace) : Pruned w w := ⟨rfl, fun _ _ h => h, fun _ _ h => h⟩

theorem trans (h : Pruned w w') (h' : Pruned w' w'') : Pruned w w'' where
  shapes := h'.shapes.trans h.shapes
  bare x b hb := h.bare x b (h'.bare x b hb)
  parent x place hp := h.parent x place (h'.parent x place hp)

theorem bare?_eq (h : Pruned w w') (hx : w'.has x) : w'.bare? x = w.bare? x := by
  obtain ⟨b, hb⟩ := exists_bare_of_has hx
  rw [hb, h.bare x b hb]

theorem has (h : Pruned w w') (hx : w'.has x) : w.has x := by
  obtain ⟨b, hb⟩ := exists_bare_of_has hx
  exact has_of_bare? (h.bare x b hb)

theorem top (h : Pruned w w') (hx : w.parent? x = none) : w'.parent? x = none := by
  cases hp : w'.parent? x with
  | none => rfl
  | some place => simp [h.parent x place hp] at hx

theorem under {a : BlockId} (h : Pruned w w') (hu : w'.Under a x) : w.Under a x :=
  hu.mono h.parent

theorem vacant (h : Pruned w w') (hl : w.Linked) (hl' : w'.Linked)
    (hp : w.occupant? place = none) : w'.occupant? place = none := by
  cases ho : w'.occupant? place with
  | none => rfl
  | some c => simp [(hl.link place c).mpr (h.parent c place ((hl'.link place c).mp ho))] at hp

/-- The place of a block that is free afterwards is empty. -/
theorem vacated (h : Pruned w w') (hl : w.Linked) (hl' : w'.Linked)
    (ho : w.occupant? place = some c) (htop : w'.parent? c = none) :
    w'.occupant? place = none := by
  cases hq : w'.occupant? place with
  | none => rfl
  | some q =>
    have hp := (hl'.link place q).mp hq
    cases Option.some.inj (ho.symm.trans ((hl.link place q).mpr (h.parent q place hp)))
    simp [htop] at hp

theorem fits (h : Pruned w w') (hf : w.Fits typed place c) (hp : w'.has place.block)
    (hc : w'.has c) : w'.Fits typed place c := hf.congr (h.bare?_eq hp) (h.bare?_eq hc)

end Pruned

/-- A sound workspace of which blocks are gone, or out of their places, is sound if its links agree. -/
theorem Sound.of_pruned (h : Sound rooted typed w) (hp : Pruned w w') (hl : w'.Linked) :
    Sound rooted typed w' where
  distinct := hp.shapes ▸ h.distinct
  regular := hp.shapes ▸ h.regular
  linked := hl
  shaped x b hb := hp.shapes ▸ h.shaped x b (hp.bare x b hb)
  follows q c hq := by
    obtain ⟨b, hb, hn⟩ := h.follows q c (hp.parent c _ hq)
    exact ⟨b, (hp.bare?_eq (hl.has_block hq)).trans hb, hn⟩
  acyclic hr := (h.acyclic hr).mono hl hp.parent
  fits place c hq :=
    hp.fits (h.fits place c (hp.parent c _ hq)) (hl.has_block hq) (has_of_parent? hq)

/-- The optional parts may be left out. -/
theorem Sound.weaken (h : Sound rooted typed w) : Sound False False w :=
  ⟨h.distinct, False.elim, h.linked, h.shaped, h.follows, False.elim,
    fun place c hp => (h.fits place c hp).weaken False.elim⟩

/-- A workspace without blocks is sound. -/
theorem sound_empty {shapes : ShapeRegistry} (hd : shapes.Distinct) (hr : typed → shapes.Regular rooted) :
    Sound rooted typed (.empty shapes) where
  distinct := hd
  regular := hr
  linked := ⟨List.nodup_nil, by simp [bare?, find?, empty],
    fun place c => by cases place <;> simp [occupant?, parent?, find?, empty]⟩
  shaped := by simp [bare?, find?, empty]
  follows := by simp [parent?, find?, empty]
  acyclic _ x hx := by simp [has, find?, empty] at hx
  fits := by simp [parent?, find?, empty]

theorem pruned_detached (w : Workspace) (id : BlockId) : Pruned w (w.detached id) where
  shapes := shapes_detached
  bare x b hb := by simpa using hb
  parent x place hp := by
    rw [parent?_detached] at hp
    split at hp
    · cases hp
    · exact hp

theorem pruned_withoutSubtree (w : Workspace) (id : BlockId) : Pruned w (w.withoutSubtree id) where
  shapes := rfl
  bare x b hb := by
    rw [bare?_withoutSubtree] at hb
    split at hb
    · cases hb
    · exact hb
  parent x place hp := by
    rw [parent?_withoutSubtree] at hp
    split at hp
    · cases hp
    · exact hp

/-- The workspace with a block out of its place, and gone altogether if it is a stand-in. -/
def severed (w : Workspace) (id : BlockId) : Workspace :=
  if (w.bare? id).any (·.shadow) then (w.detached id).withoutSubtree id else w.detached id

theorem pruned_severed (w : Workspace) (id : BlockId) : Pruned w (w.severed id) := by
  unfold severed
  split
  · exact (pruned_detached w id).trans (pruned_withoutSubtree _ id)
  · exact pruned_detached w id

theorem parent?_severed_self : (w.severed id).parent? id = none := by
  have htop : (w.detached id).parent? id = none := by simp [parent?_detached]
  unfold severed
  split
  · exact (pruned_withoutSubtree _ id).top htop
  · exact htop

/-- Severing a block leaves both ends of all other links in step. -/
theorem Linked.severed (h : w.Linked) (hid : w.has id) : (w.severed id).Linked := by
  unfold Workspace.severed
  split
  · refine (h.detached id).withoutSubtree (by simpa using hid) fun place hp => ?_
    simp [parent?_detached] at hp
  · exact h.detached id

theorem Linked.ensures_sever (h : w.Linked) {ok : Unit → Workspace → Prop}
    {refused : EditError → Workspace → Prop} :
    (sever id).Ensures w ok refused ↔ match w.find? id with
      | some _ => ok () (w.severed id)
      | none => refused (.unknownBlock id) w := by
  unfold sever
  rw [ensures_bind, h.ensures_detach]
  cases hb : w.find? id with
  | none => rfl
  | some b =>
    have hhas : (w.detached id).has id := by
      rw [has_detached]
      exact has_iff.mpr ⟨b, hb⟩
    obtain ⟨b', hb'⟩ := has_iff.mp hhas
    have hshadow : (w.bare? id).any (·.shadow) = b'.shadow := by
      have hbare : (w.detached id).bare? id = w.bare? id := bare?_detached
      rw [← hbare, bare?, hb']
      rfl
    simp only [ensures_bind, ensures_require, hb', Workspace.severed, hshadow]
    cases b'.shadow <;> rfl

theorem Sound.detached (h : Sound rooted typed w) (id : BlockId) :
    Sound rooted typed (w.detached id) :=
  h.of_pruned (pruned_detached w id) (h.linked.detached id)

theorem Sound.severed (h : Sound rooted typed w) (hid : w.has id) :
    Sound rooted typed (w.severed id) :=
  h.of_pruned (pruned_severed w id) (h.linked.severed hid)

/-- A free block goes into a free place where it fits, not beneath itself. -/
theorem Sound.attached (h : Sound rooted typed w) (hp : w.offers place)
    (hfree : w.occupant? place = none) (hc : w.has c) (htop : w.parent? c = none)
    (hnext : ∀ q, place = .next q → ∃ b, w.bare? q = some b ∧ b.connectors.next)
    (hrooted : rooted → ¬ w.Under c place.block) (hfits : w.Fits typed place c) :
    Sound rooted typed (w.attached place c) where
  distinct := by simpa using h.distinct
  regular := by simpa using h.regular
  linked := h.linked.attached hp hfree hc htop
  shaped x b hb := by simpa using h.shaped x b (by simpa using hb)
  follows q x hx := by
    rw [parent?_attached hc] at hx
    rw [bare?_attached]
    split at hx
    · exact hnext q (Option.some.inj hx)
    · exact h.follows q x hx
  acyclic hr := (h.acyclic hr).attached hc (hrooted hr) (has_of_offers hp)
  fits q x hx := by
    rw [parent?_attached hc] at hx
    refine Fits.congr ?_ bare?_attached bare?_attached
    split at hx
    · rename_i he
      exact Option.some.inj hx ▸ he ▸ hfits
    · exact h.fits q x hx

end Workspace

end BlockProgram
