import BlockProgram.Proofs.Workspace.Forest

/-! What an edit of links does as a whole: which blocks are gone, and what each place holds. All else is
determined by the workspace before. -/
namespace BlockProgram.Workspace

/-- `w'` has the blocks of `w` that are not `gone`, in the order they had. They differ in their links only,
and each place holds its `content`. -/
structure Relinked (w : Workspace) (gone : BlockId → Prop) (content : Attachment → Option BlockId)
    (w' : Workspace) : Prop where
  shapes : w'.shapes = w.shapes
  order : w'.ids = w.ids.filter w'.has
  has : ∀ x, w'.has x ↔ w.has x ∧ ¬ gone x
  bare : ∀ x, w'.has x → w'.bare? x = w.bare? x
  /-- The place of a block is the one that holds it. -/
  linked : w'.Linked
  content : ∀ place, w'.has place.block → w'.occupant? place = content place

/-- The contents of places after `c` has come to a place. -/
def supplied (w : Workspace) (place : Attachment) (c : BlockId) (q : Attachment) : Option BlockId :=
  if q = place then some c else if w.occupant? q = some c then none else w.occupant? q

variable {w w' w'' : Workspace} {gone gone' : BlockId → Prop}
  {content content' : Attachment → Option BlockId} {x y c id : BlockId} {place : Attachment}

/-- A block that holds the same in its sockets may differ in its place and in what follows it. -/
theorem Linked.find?_map (h : w'.Linked) (hbare : w'.bare? x = w.bare? x)
    (htarget : ∀ n, w'.occupant? (.input x n) = w.occupant? (.input x n)) :
    w'.find? x = (w.find? x).map fun b =>
      { b with parent := w'.parent? x, next := w'.occupant? (.next x) } := by
  cases hb : w.find? x with
  | none => simpa [bare?, hb] using hbare
  | some b =>
    refine h.find?_eq (hbare.trans ?_) (fun n => (htarget n).trans ?_) rfl rfl
    · rw [bare?, hb]
      rfl
    · rw [occupant?, hb]
      rfl

/-- A block is known by what it is and by its links. -/
theorem Linked.find?_congr (h : w'.Linked) (hbare : w'.bare? x = w.bare? x)
    (hcontent : ∀ place, place.block = x → w'.occupant? place = w.occupant? place)
    (hparent : w'.parent? x = w.parent? x) : w'.find? x = w.find? x := by
  rw [h.find?_map hbare fun n => hcontent (.input x n) rfl, hcontent (.next x) rfl, hparent]
  cases hb : w.find? x <;> simp [parent?, occupant?, hb]

/-- What a block holds, and the chain after it. -/
theorem Linked.under_iff_content (h : w.Linked) : w.Under id x ↔
    x = id ∨ ∃ place c, place.block = id ∧ w.occupant? place = some c ∧ w.Under c x := by
  constructor
  · intro hu
    induction hu with
    | self => exact .inl rfl
    | @step x place hp _ ih =>
      refine .inr ?_
      rcases ih with he | ⟨q, c, hq, hc, hu⟩
      · exact ⟨place, x, he, (h.link _ _).mpr hp, .self⟩
      · exact ⟨q, c, hq, hc, .step hp hu⟩
  · rintro (rfl | ⟨place, c, rfl, hc, hu⟩)
    · exact .self
    · exact (Under.of_parent ((h.link _ _).mp hc)).trans hu

/-- If no block is lost, all is said by the contents. -/
theorem Linked.relinked (h : w'.Linked) (hs : w'.shapes = w.shapes) (hi : w'.ids = w.ids)
    (hb : ∀ x, w'.bare? x = w.bare? x)
    (hc : ∀ place, w.has place.block → w'.occupant? place = content place) :
    Relinked w (fun _ => False) content w' := by
  have hhas (x : BlockId) : w'.has x = w.has x := has_congr (hb x)
  refine ⟨hs, ?_, by simp [hhas], fun x _ => hb x, h, fun place hp => hc place (hhas _ ▸ hp)⟩
  rw [hi, List.filter_eq_self.mpr fun x hx => (hhas x).trans (has_iff_mem_ids.mpr hx)]

namespace Relinked

/-- Blocks that are gone and contents of places determine the workspace. -/
theorem unique (h : Relinked w gone content w') (h' : Relinked w gone content w'') : w' = w'' := by
  have hhas (x : BlockId) : w'.has x = w''.has x :=
    Bool.eq_iff_iff.mpr ((h.has x).trans (h'.has x).symm)
  refine h'.linked.ext h.linked (h.shapes.trans h'.shapes.symm) ?_ (fun x => ?_) fun x => ?_
  · rw [h.order, h'.order, funext hhas]
  · by_cases hx : w'.has x
    · rw [h.bare x hx, h'.bare x (hhas x ▸ hx)]
    · have hx' : ¬ w''.has x := hhas x ▸ hx
      rw [has_iff_bare?] at hx hx'
      rw [Option.not_isSome_iff_eq_none.mp hx, Option.not_isSome_iff_eq_none.mp hx']
  -- a block is where it is because that place holds it
  · refine Option.ext fun place => ?_
    rw [← h.linked.link, ← h'.linked.link]
    by_cases hp : w'.has place.block
    · rw [h.content place hp, h'.content place (hhas _ ▸ hp)]
    · rw [occupant?_of_not_has hp, occupant?_of_not_has (hhas place.block ▸ hp)]

/-- Without a loss all blocks are what they were. -/
theorem bare?_eq (h : Relinked w (fun _ => False) content w') : w'.bare? x = w.bare? x := by
  by_cases hx : w'.has x
  · exact h.bare x hx
  · have hno : ¬ w.has x := fun hx' => hx ((h.has x).mpr ⟨hx', id⟩)
    rw [has_iff_bare?, Option.not_isSome_iff_eq_none] at hx hno
    rw [hx, hno]

theorem parent?_eq_some (h : Relinked w gone content w') (hp : w'.has place.block)
    (hc : content place = some x) : w'.parent? x = some place :=
  (h.linked.link _ _).mp ((h.content place hp).trans hc)

theorem parent?_eq_none (h : Relinked w gone content w') (hc : ∀ place, content place ≠ some x) :
    w'.parent? x = none := by
  refine Option.eq_none_iff_forall_ne_some.mpr fun place hp => hc place ?_
  rw [← h.content place (h.linked.has_block hp), (h.linked.link _ _).mpr hp]

/-- A block that is held by the same place and holds the same blocks is as it was. -/
theorem find?_eq (h : Relinked w gone content w') (hx : w'.has x)
    (hcontent : ∀ place, place.block = x → content place = w.occupant? place)
    (hparent : w'.parent? x = w.parent? x) : w'.find? x = w.find? x :=
  h.linked.find?_congr (h.bare x hx)
    (fun place he => (h.content place (he.symm ▸ hx)).trans (hcontent place he)) hparent

theorem refl (h : w.Linked) : Relinked w (fun _ => False) w.occupant? w :=
  h.relinked rfl rfl (fun _ => rfl) fun _ _ => rfl

theorem detached (h : Relinked w gone content w') (x : BlockId) :
    Relinked w gone (fun place => if content place = some x then none else content place)
      (w'.detached x) where
  shapes := shapes_detached.trans h.shapes
  order := by
    rw [ids_detached, h.order]
    exact List.filter_congr fun _ _ => has_detached.symm
  has y := by simpa using h.has y
  bare y hy := bare?_detached.trans (h.bare y (by simpa using hy))
  linked := h.linked.detached x
  content place hp := by rw [h.linked.occupant?_detached, h.content place (by simpa using hp)]

theorem attached (h : Relinked w gone content w') (hp : w'.offers place)
    (hfree : w'.occupant? place = none) (hc : w'.has c) (htop : w'.parent? c = none) :
    Relinked w gone (fun q => if q = place then some c else content q) (w'.attached place c) where
  shapes := shapes_attached.trans h.shapes
  order := by
    rw [ids_attached, h.order]
    exact List.filter_congr fun _ _ => has_attached.symm
  has y := by simpa using h.has y
  bare y hy := bare?_attached.trans (h.bare y (by simpa using hy))
  linked := h.linked.attached hp hfree hc htop
  content q hq := by rw [occupant?_attached hp, h.content q (by simpa using hq)]

/-- A block without its place that is deleted goes with all that it still holds. -/
theorem withoutSubtree (h : Relinked w gone content w') (hid : w'.has id)
    (htop : w'.parent? id = none) :
    Relinked w (fun x => gone x ∨ w'.Under id x) content (w'.withoutSubtree id) := by
  have hhas (x : BlockId) : (w'.withoutSubtree id).has x ↔ w'.has x ∧ ¬ w'.Under id x := by
    rw [has_withoutSubtree, h.linked.mem_descendants hid]
  refine ⟨h.shapes, ?_, fun x => ?_, fun x hx => ?_,
    h.linked.withoutSubtree hid (by simp [htop]), fun place hp => ?_⟩
  · rw [ids_withoutSubtree, h.order, List.filter_filter]
    refine List.filter_congr fun x _ => Bool.eq_iff_iff.mpr ?_
    rw [has_withoutSubtree]
    simp [and_comm]
  · rw [hhas, h.has, not_or, and_assoc]
  · rw [bare?_withoutSubtree, if_neg (has_withoutSubtree.mp hx).2, h.bare x (has_withoutSubtree.mp hx).1]
  · have := has_withoutSubtree.mp hp
    rw [occupant?_withoutSubtree, if_neg this.2, h.content place this.1]

/-- The same blocks may be described in another way, and so may the contents of the places that are left. -/
theorem congr (h : Relinked w gone content w') (hg : ∀ x, w.has x → (gone' x ↔ gone x))
    (hc : ∀ place, w'.has place.block → content' place = content place) :
    Relinked w gone' content' w' where
  shapes := h.shapes
  order := h.order
  has x := (h.has x).trans (and_congr_right fun hx => not_congr (hg x hx).symm)
  bare := h.bare
  linked := h.linked
  content place hp := (h.content place hp).trans (hc place hp).symm

/-- A block that is severed is gone with all that it still holds if it is a stand-in. -/
theorem severed (h : Relinked w gone content w') (hx : w'.has x) :
    Relinked w (fun y => gone y ∨ w'.standIn x ∧ w'.Under x y)
      (fun place => if content place = some x then none else content place) (w'.severed x) := by
  have hd := h.detached x
  unfold Workspace.severed
  rw [← standIn_eq]
  split
  · rename_i hs
    exact (hd.withoutSubtree (by simpa using hx) (by simp [parent?_detached])).congr
      (fun y _ => by rw [under_detached_self, and_iff_right hs]) fun _ _ => rfl
  · rename_i hs
    exact hd.congr (fun y _ => by simp [hs]) fun _ _ => rfl

end Relinked

end BlockProgram.Workspace
