import BlockProgram.Proofs.Workspace.Nesting
import BlockProgram.Proofs.Workspace.Relinked

/-! What unplugging and deleting do in a forest. A block that is unplugged leaves with what its sockets hold, and
the chain after it moves up into its place. Deleting it then takes away nothing else; without closing the gap
the chain after it is deleted too. -/
namespace BlockProgram.Workspace

open Edit

/-- The contents of places after a block has left and the one after it has moved up. -/
def closedUp (w : Workspace) (b : BlockId) (place : Attachment) : Option BlockId :=
  if place = .next b then none
  else if w.occupant? place = some b then w.occupant? (.next b)
  else w.occupant? place

/-- The contents of places after a block has left. -/
def vacated (w : Workspace) (b : BlockId) (place : Attachment) : Option BlockId :=
  if w.occupant? place = some b then none else w.occupant? place

/-- The block itself, or one beneath what it has plugged into a socket. The chain after it is left out. -/
def Holds (w : Workspace) (b x : BlockId) : Prop :=
  x = b ∨ ∃ s c, w.occupant? (.input b s) = some c ∧ w.Under c x

/-- `b` is alone with what its sockets hold, and the block after it stands where it stood. -/
structure Unthreaded (w : Workspace) (b : BlockId) (w' : Workspace) : Prop where
  relinked : w.Relinked (fun _ => False) (w.closedUp b) w'
  self : w'.find? b = (w.find? b).map fun d => { d with parent := none, next := none }
  /-- The block after it keeps all but its place. -/
  heir : ∀ q, w.occupant? (.next b) = some q →
    w'.find? q = (w.find? q).map fun d => { d with parent := w.parent? b }
  held : ∀ x, w.Holds b x → x ≠ b → w'.find? x = w.find? x
  after : ∀ q x, w.occupant? (.next b) = some q → w.Under q x → x ≠ q → w'.find? x = w.find? x
  /-- Only the block that had `b` in one of its places may have changed otherwise. -/
  rest : ∀ x, x ≠ b → w.occupant? (.next b) ≠ some x →
    (∀ place, w.parent? b = some place → x ≠ place.block) → w'.find? x = w.find? x

variable {w w' : Workspace} {b c q x : BlockId} {place : Attachment} {typed : Prop}
  {shapes : ShapeRegistry}

private theorem Linked.occupant?_healed (h : w.Linked) (hb : w.parent? b ≠ some (.next b)) :
    (w.healed b).occupant? place = w.closedUp b place := by
  have hself : w.occupant? (.next b) ≠ some b := fun ho => hb ((h.link _ _).mp ho)
  unfold healed closedUp
  cases hnext : w.occupant? (.next b) with
  | none => grind [h.occupant?_detached]
  | some q =>
    have hq : w.occupant? place = some q ↔ place = .next b := h.occupant?_iff ((h.link _ _).mp hnext)
    cases hp : w.parent? b with
    | none =>
      have hno : w.occupant? place ≠ some b := fun ho => by simp [(h.link _ _).mp ho] at hp
      simp only [(h.detached b).occupant?_detached, h.occupant?_detached, hno, if_false, hq]
    | some above =>
      have hocc : w.occupant? place = some b ↔ place = above := h.occupant?_iff hp
      have hoffers : ((w.detached b).detached q).offers above :=
        (offers_congr (by simp)).trans (offers_of_occupant? ((h.link _ _).mpr hp))
      have hne : above ≠ .next b := fun he => hb (he ▸ hp)
      simp only [occupant?_attached hoffers, (h.detached b).occupant?_detached, h.occupant?_detached, hocc]
      grind

theorem Sound.occupant?_healed (h : Sound True typed w) :
    (w.healed b).occupant? place = w.closedUp b place :=
  h.linked.occupant?_healed fun hp => (h.acyclic trivial).not_under hp .self

theorem Sound.relinked_healed (h : Sound True typed w) (b : BlockId) :
    w.Relinked (fun _ => False) (w.closedUp b) (w.healed b) :=
  (h.healed b).sound.linked.relinked shapes_healed ids_healed (fun _ => bare?_healed) fun _ _ =>
    h.occupant?_healed

/-- Other blocks than the two that move stay in their places. -/
theorem Sound.parent?_healed (h : Sound True typed w) (hx : x ≠ b)
    (hq : w.occupant? (.next b) ≠ some x) : (w.healed b).parent? x = w.parent? x := by
  refine Option.ext fun place => ?_
  rw [← (h.healed b).sound.linked.link, ← h.linked.link, h.occupant?_healed]
  unfold closedUp
  grind

/-- The block after an unplugged one comes to stand where that one stood. -/
theorem Sound.parent?_healed_heir (h : Sound True typed w)
    (hq : w.occupant? (.next b) = some q) : (w.healed b).parent? q = w.parent? b := by
  have hplace := (h.linked.link _ _).mp hq
  have hself (place : Attachment) : w.occupant? place = some b ↔ w.parent? b = some place :=
    h.linked.link place b
  refine Option.ext fun place => ?_
  have hno : w.parent? b ≠ some (.next b) := fun hp => (h.acyclic trivial).not_under hp .self
  rw [← (h.healed b).sound.linked.link, h.occupant?_healed]
  have hheld : w.occupant? place = some q ↔ place = .next b := h.linked.occupant?_iff hplace
  unfold closedUp
  grind

theorem Sound.unthreaded (h : Sound True typed w) (b : BlockId) :
    w.Unthreaded b (w.healed b) := by
  have hl := h.linked
  have hl' := (h.healed b).sound.linked
  have ha := h.acyclic trivial
  have hself : w.parent? b ≠ some (.next b) := fun hp => ha.not_under hp .self
  have hkeep (place : Attachment) (hb : place ≠ .next b) (hp : w.parent? b ≠ some place) :
      (w.healed b).occupant? place = w.occupant? place := by
    rw [h.occupant?_healed, closedUp, if_neg hb, if_neg fun ho => hp ((hl.link _ _).mp ho)]
  have rest (x : BlockId) (hx : x ≠ b) (hq : w.occupant? (.next b) ≠ some x)
      (hp : ∀ place, w.parent? b = some place → x ≠ place.block) :
      (w.healed b).find? x = w.find? x :=
    hl'.find?_congr bare?_healed
      (fun place he => hkeep place (fun hb => hx (by rw [← he, hb]; rfl)) fun hb => hp place hb he.symm)
      (h.parent?_healed hx hq)
  refine ⟨h.relinked_healed b, ?_, fun q hq => ?_, fun x hx hne => ?_, fun q x hq hx hne => ?_, rest⟩
  · have hnext : (w.healed b).occupant? (.next b) = none := by rw [h.occupant?_healed, closedUp, if_pos rfl]
    have htop : (w.healed b).parent? b = none :=
      (h.relinked_healed b).parent?_eq_none fun place hc => by
        have hno : w.occupant? (.next b) ≠ some b := fun ho => hself ((hl.link _ _).mp ho)
        grind [closedUp]
    rw [hl'.find?_map bare?_healed fun n => hkeep _ (by simp) fun hp => ha.not_under hp .self,
      hnext, htop]
  · have hq' := (hl.link _ _).mp hq
    have hne : q ≠ b := fun he => hself (he ▸ hq')
    have hkeep (place : Attachment) (he : place.block = q) :
        (w.healed b).occupant? place = w.occupant? place := by
      refine hkeep place (fun hb => hne (by rw [← he, hb]; rfl)) fun hp => ?_
      exact ha.not_under hp (he ▸ .of_parent hq')
    rw [hl'.find?_map bare?_healed fun n => hkeep _ rfl, hkeep _ rfl, h.parent?_healed_heir hq]
    cases hd : w.find? q <;> simp [occupant?, hd]
  · obtain ⟨s, c, hc, hu⟩ := hx.resolve_left hne
    have hc' := (hl.link _ _).mp hc
    refine rest x hne (fun hq => ?_) fun place hp he => ha.not_under hp (he ▸ .trans (.of_parent hc') hu)
    have hx := (hl.link _ _).mp hq
    cases hu with
    | self => simp [hc'] at hx
    | step hp hu => exact ha.not_under hc' (by cases hp.symm.trans hx; exact hu)
  · have hq' := (hl.link _ _).mp hq
    refine rest x (fun he => ha.not_under hq' (he ▸ hx)) (fun hx' => hne ?_) fun place hp he =>
      ha.not_under hp (he ▸ .trans (.of_parent hq') hx)
    exact Option.some.inj (hx'.symm.trans hq)

theorem Unthreaded.parent?_self (h : w.Unthreaded b w') : w'.parent? b = none := by
  rw [parent?, h.self]
  cases w.find? b <;> rfl

/-- With the gap closed a block has only beneath it what its sockets hold. -/
theorem Sound.under_healed (h : Sound True typed w) :
    (w.healed b).Under b x ↔ w.Holds b x := by
  have hu := h.unthreaded b
  rw [(h.healed b).sound.linked.under_iff_content]
  refine or_congr_right ⟨?_, ?_⟩
  · rintro ⟨place, c, rfl, hc, hx⟩
    rw [h.occupant?_healed] at hc
    cases place with
    | next p => simp [closedUp, Attachment.block] at hc
    | input p s =>
      refine ⟨s, c, ?_, (h.healed _).under hx⟩
      have hne : w.occupant? (.input p s) ≠ some p := fun ho =>
        (h.acyclic trivial).not_under ((h.linked.link _ _).mp ho) .self
      simpa [closedUp, Attachment.block, hne] using hc
  · rintro ⟨s, c, hc, hx⟩
    have hc' := (h.linked.link _ _).mp hc
    have hparent {y : BlockId} (hy : w.Under c y) : (w.healed b).parent? y = w.parent? y := by
      have hne : y ≠ b := fun he => (h.acyclic trivial).not_under hc' (he ▸ hy)
      rw [parent?, hu.held y (.inr ⟨s, c, hc, hy⟩) hne, parent?]
    refine ⟨.input b s, c, rfl, ?_, hx.keep fun y hy _ _ => hparent hy⟩
    rw [(h.healed b).sound.linked.link, hparent .self, hc']

/-- Unplugging closes the gap; deleting takes away what the block holds, or all that is beneath and after it. -/
theorem unthreaded_and_deleted (hd : shapes.Distinct) (hw : Edited shapes w) (hb : w.has b) :
    (∃ w', (unplug b true).perform w = (.ok (), w') ∧ w.Unthreaded b w') ∧
    (∃ w', (delete b true).perform w = (.ok (), w') ∧ w.Relinked (w.Holds b) (w.closedUp b) w') ∧
    ∃ w', (delete b false).perform w = (.ok (), w') ∧
      w.Relinked (· ∈ w.descendants b) (w.vacated b) w' ∧ ∀ x ∈ w.chain b, ¬ w'.has x := by
  have h : Sound True False w := hw.sound hd False.elim
  obtain ⟨d, hd⟩ := has_iff.mp hb
  have hhas : (w.healed b).has b := by rwa [has_congr bare?_healed]
  have hunplug : (unplug b true).Ensures w (fun _ w' => w' = w.healed b) fun _ _ => False :=
    h.linked.ensures_unplug (fun _ => rfl) (by simp [hd])
  refine ⟨?_, ?_, ?_⟩
  · obtain ⟨⟨⟩, w', hw', rfl⟩ := hunplug.exists_ok
    exact ⟨_, hw', h.unthreaded b⟩
  · have hdelete : (delete b true).Ensures w
        (fun _ w' => w' = (w.healed b).withoutSubtree b) fun _ _ => False := by
      unfold delete
      simp only [↓reduceIte, ensures_bind]
      exact hunplug.mono (fun _ _ he => he ▸ rfl) fun _ _ h' => h'
    obtain ⟨⟨⟩, w', hw', rfl⟩ := hdelete.exists_ok
    have htop : (w.healed b).parent? b = none := by simp [parent?, (h.unthreaded b).self, hd]
    exact ⟨_, hw', ((h.relinked_healed b).withoutSubtree hhas htop).congr
      (fun x _ => by rw [false_or, h.under_healed]) fun _ _ => rfl⟩
  · have hdelete : (delete b false).Ensures w
        (fun _ w' => w' = (w.detached b).withoutSubtree b) fun _ _ => False := by
      unfold delete
      simp only [Bool.false_eq_true, ↓reduceIte, ensures_bind, h.linked.ensures_detach, hd]
      rfl
    obtain ⟨⟨⟩, w', hw', rfl⟩ := hdelete.exists_ok
    have hr : w.Relinked (· ∈ w.descendants b) (w.vacated b) ((w.detached b).withoutSubtree b) := by
      refine (((Relinked.refl h.linked).detached b).withoutSubtree (by simpa using hb)
        (by simp [parent?_detached])).congr (fun x _ => ?_) fun _ _ => rfl
      rw [false_or, under_detached_self, h.linked.mem_descendants hb]
    refine ⟨_, hw', hr, fun x hx hx' => ((hr.has x).mp hx').2 ?_⟩
    rw [h.linked.mem_descendants hb]
    exact (h.linked.row_chain_of_acyclic (h.acyclic trivial) hb).under h.linked x hx

/-- The first of two statements in a loop, with a text in its socket. -/
theorem unthreaded_and_deleted_in_loop :
    let w := [Action.add ⟨"loop"⟩ "controls_repeat_ext" false, .add ⟨"first"⟩ "text_print" false,
      .add ⟨"last"⟩ "text_print" false, .add ⟨"text"⟩ "text" false,
      .connectStatement ⟨"loop"⟩ "DO" ⟨"first"⟩, .connectNext ⟨"first"⟩ ⟨"last"⟩,
      .connectValue ⟨"first"⟩ "TEXT" ⟨"text"⟩].foldl Action.apply (.empty Python.standard.shapes)
    Python.standard.shapes.Distinct ∧ Edited Python.standard.shapes w ∧ w.has ⟨"first"⟩ ∧
    (∃ w', (unplug ⟨"first"⟩ true).perform w = (.ok (), w') ∧ w.Unthreaded ⟨"first"⟩ w') ∧
    (∃ w', (delete ⟨"first"⟩ true).perform w = (.ok (), w') ∧
      w.Relinked (w.Holds ⟨"first"⟩) (w.closedUp ⟨"first"⟩) w') ∧
    (∃ w', (delete ⟨"first"⟩ false).perform w = (.ok (), w') ∧
      w.Relinked (· ∈ w.descendants ⟨"first"⟩) (w.vacated ⟨"first"⟩) w' ∧
      ∀ x ∈ w.chain ⟨"first"⟩, ¬ w'.has x) ∧
    w.closedUp ⟨"first"⟩ (.input ⟨"loop"⟩ "DO") = some ⟨"last"⟩ ∧
    w.descendants ⟨"first"⟩ = [⟨"first"⟩, ⟨"text"⟩, ⟨"last"⟩] := by
  intro w
  have hw : Edited Python.standard.shapes w := Edited.empty.run _
  have hhas : w.has ⟨"first"⟩ := by decide +kernel
  obtain ⟨hunplug, hheal, hdelete⟩ := unthreaded_and_deleted Python.standard_distinct hw hhas
  exact ⟨Python.standard_distinct, hw, hhas, hunplug, hheal, hdelete, by decide +kernel,
    by decide +kernel⟩

end BlockProgram.Workspace
