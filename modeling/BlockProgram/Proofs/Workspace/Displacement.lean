import BlockProgram.Proofs.Workspace.Relinked

/-! Plugging an expression into a socket moves it with all that is beneath it, wherever it was before, and
takes away no more than a stand-in that held the socket for it. -/
namespace BlockProgram.Workspace

open Edit

/-- The block is beneath a stand-in that holds a place, or is that stand-in, and does not go along with `c`. -/
def Discards (w : Workspace) (place : Attachment) (c x : BlockId) : Prop :=
  ∃ old, w.occupant? place = some old ∧ w.standIn old ∧ w.Under old x ∧ ¬ w.Under c x

/-- `c` is in a place, with all that was beneath it. -/
structure Supplied (w : Workspace) (place : Attachment) (c : BlockId) (w' : Workspace) : Prop where
  relinked : w.Relinked (w.Discards place c) (w.supplied place c) w'
  moved : w'.find? c = (w.find? c).map fun d => { d with parent := some place }
  carried : ∀ x, w.Under c x → x ≠ c → w'.find? x = w.find? x
  /-- The place that it came from is empty. -/
  left : ∀ q, w.parent? c = some q → q ≠ place → w'.occupant? q = none
  /-- A block that was in the place and is no stand-in is at the top, with all that `c` did not take along. -/
  loose : ∀ old, w.occupant? place = some old → old ≠ c → ¬ w.standIn old →
    w'.has old ∧ w'.parent? old = none ∧ ∀ x, w'.Under old x ↔ w.Under old x ∧ ¬ w.Under c x
  /-- Only the blocks at either end of a link that is made or broken are changed. -/
  rest : ∀ x, w'.has x → x ≠ c → w.occupant? place ≠ some x → x ≠ place.block →
    (∀ q, w.parent? c = some q → x ≠ q.block) → w'.find? x = w.find? x

variable {w w' : Workspace} {p c old x : BlockId} {s : String} {place : Attachment} {typed : Prop}
  {shapes : ShapeRegistry}

private theorem not_discards (hold : w.occupant? place = some old) (hs : ¬ w.standIn old) :
    ¬ w.Discards place c x := by
  rintro ⟨old', hold', hs', -⟩
  exact hs (Option.some.inj (hold.symm.trans hold') ▸ hs')

section contents

variable {q : Attachment} (h : w.Relinked (w.Discards place c) (w.supplied place c) w') (hl : w.Linked)
include h hl

/-- All places but the one that `c` comes to and the one that it leaves hold what they held. -/
theorem Relinked.occupant?_kept (hq : w'.has q.block) (hne : q ≠ place)
    (hc : w.parent? c ≠ some q) : w'.occupant? q = w.occupant? q := by
  rw [h.content q hq, Workspace.supplied, if_neg hne, if_neg fun ho => hc ((hl.link _ _).mp ho)]

private theorem Relinked.parent?_kept (hp : w.parent? x = some q) (hq : w'.has q.block) (hne : q ≠ place)
    (hx : x ≠ c) : w'.parent? x = some q := by
  have ho := (hl.link _ _).mpr hp
  rw [← h.linked.link, h.occupant?_kept hl hq hne fun hc => hx ?_, ho]
  exact Option.some.inj (ho.symm.trans ((hl.link _ _).mpr hc))

omit hl in
private theorem Relinked.has_carried (hc : w.has c) (hx : w.Under c x) : w'.has x :=
  (h.has x).mpr ⟨hx.has_below hc, fun ⟨_, _, _, _, hno⟩ => hno hx⟩

/-- A place beneath `c` is neither the one that it comes to nor the one that it leaves. -/
theorem Relinked.occupant?_carried (ha : w.Acyclic) (hc : w.has c) (hu : ¬ w.Under c place.block)
    (hq : w.Under c q.block) : w'.occupant? q = w.occupant? q :=
  h.occupant?_kept hl (h.has_carried hc hq) (fun he => hu (he ▸ hq)) fun hp => ha.not_under hp hq

private theorem Relinked.find?_moved (ha : w.Acyclic) (hc : w.has c) (hp : w'.has place.block)
    (hu : ¬ w.Under c place.block) :
    w'.find? c = (w.find? c).map fun d => { d with parent := some place } := by
  have hplace : w'.parent? c = some place := h.parent?_eq_some hp (by simp [Workspace.supplied])
  rw [h.linked.find?_map (h.bare c (h.has_carried hc .self)) fun n => h.occupant?_carried hl ha hc hu .self,
    hplace, h.occupant?_carried hl ha hc hu (q := .next c) .self]
  cases hd : w.find? c <;> simp [occupant?, hd]

private theorem Relinked.find?_carried (ha : w.Acyclic) (hc : w.has c) (hu : ¬ w.Under c place.block)
    (hx : w.Under c x) (hne : x ≠ c) : w'.find? x = w.find? x := by
  refine h.find?_eq (h.has_carried hc hx) (fun q he => ?_) ?_
  · rw [← h.content q (he ▸ h.has_carried hc hx), h.occupant?_carried hl ha hc hu (he ▸ hx)]
  · cases hx with
    | self => exact absurd rfl hne
    | step hq hx =>
      exact (h.parent?_kept hl hq (h.has_carried hc hx) (fun he => hu (he ▸ hx)) hne).trans hq.symm

/-- What was beneath the block that the place held is still beneath it, if it did not go along with `c`. -/
theorem Relinked.under_loose (ha : w.Acyclic) (hu : ¬ w.Under c place.block)
    (hold : w.occupant? place = some old) (hne : old ≠ c) (hs : ¬ w.standIn old) :
    w'.Under old x ↔ w.Under old x ∧ ¬ w.Under c x := by
  have hplace := (hl.link _ _).mp hold
  constructor
  · intro hx
    induction hx with
    | self => exact ⟨.self, hl.not_under_occupant (by grind) hu old hold⟩
    | @step x q hp _ ih =>
      have hcontent := (h.content q (h.linked.has_block hp)).symm.trans ((h.linked.link _ _).mpr hp)
      have hq : q ≠ place := fun he => ha.not_under hplace (he ▸ ih.1)
      rw [Workspace.supplied, if_neg hq] at hcontent
      have ho : w.occupant? q = some x ∧ x ≠ c := by grind
      have hp := (hl.link _ _).mp ho.1
      refine ⟨.step hp ih.1, fun hxc => ?_⟩
      cases hxc with
      | self => exact ho.2 rfl
      | step hp' hxc => exact ih.2 (by cases hp.symm.trans hp'; exact hxc)
  · rintro ⟨hx, hxc⟩
    refine hx.keep fun y hy hyx hne => ?_
    cases hy with
    | self => exact absurd rfl hne
    | @step _ q hq _ =>
      have hhas : w'.has q.block := (h.has _).mpr ⟨hl.has_block hq, not_discards hold hs⟩
      refine (h.parent?_kept hl hq hhas (fun he => hne ?_) fun he => hxc (he ▸ hyx)).trans hq.symm
      exact Option.some.inj (((hl.link _ _).mpr hq).symm.trans (he ▸ hold))

/-- A block that is left, and that neither moves nor is put out of its place, stays where it was. -/
theorem Relinked.parent?_rest (hx : w'.has x) (hc : x ≠ c) (hold : w.occupant? place ≠ some x) :
    w'.parent? x = w.parent? x := by
  cases hq : w.parent? x with
  | none =>
    refine h.parent?_eq_none fun q ho => ?_
    have hno : w.occupant? q ≠ some x := fun ho => by simp [(hl.link _ _).mp ho] at hq
    grind [Workspace.supplied]
  | some q =>
    have hne : q ≠ place := fun he => hold (he ▸ (hl.link _ _).mpr hq)
    refine h.parent?_kept hl hq ((h.has _).mpr ⟨hl.has_block hq, ?_⟩) hne hc
    -- if the block above were discarded, `x` would be too
    rintro ⟨old, hold, hs, hxo, hno⟩
    refine ((h.has x).mp hx).2 ⟨old, hold, hs, .step hq hxo, fun hxc => ?_⟩
    cases hxc with
    | self => exact hc rfl
    | step hq' hxc => exact hno (by cases hq.symm.trans hq'; exact hxc)

private theorem Relinked.supplied_of_content (ha : w.Acyclic) (hc : w.has c) (hp : w'.has place.block)
    (hu : ¬ w.Under c place.block) : w.Supplied place c w' := by
  refine ⟨h, h.find?_moved hl ha hc hp hu, fun x => h.find?_carried hl ha hc hu, fun q hq hne => ?_,
    fun old hold hne hs => ⟨(h.has old).mpr ⟨has_of_parent? ((hl.link _ _).mp hold), not_discards hold hs⟩,
      h.parent?_eq_none fun q ho => ?_, fun x => h.under_loose hl ha hu hold hne hs⟩,
    fun x hx hxc hold hblock hup => ?_⟩
  · by_cases hx : w'.has q.block
    · rw [h.content q hx, Workspace.supplied, if_neg hne, if_pos ((hl.link _ _).mpr hq)]
    · exact occupant?_of_not_has hx
  · have hq : w.occupant? q = some old ↔ q = place := hl.occupant?_iff ((hl.link _ _).mp hold)
    grind [Workspace.supplied]
  · refine h.find?_eq hx (fun q he => ?_) (h.parent?_rest hl hx hxc hold)
    rw [← h.content q (he ▸ hx), h.occupant?_kept hl (he ▸ hx) (fun hq => hblock (by rw [← he, hq])) fun hq =>
      hup q hq he.symm]

end contents

/-- What the place held is out of it, and gone with what it still holds if it is a stand-in. -/
theorem Linked.relinked_displaced (h : w.Linked) (hne : w.occupant? place ≠ some c)
    (hu : ¬ w.Under c place.block) : w.Relinked (w.Discards place c)
      (fun q => if q = place ∨ w.occupant? q = some c then none else w.occupant? q)
      (w.displaced place c) := by
  have hd := (Relinked.refl h).detached c
  unfold Workspace.displaced
  cases hold : w.occupant? place with
  | none =>
    refine hd.congr (fun x _ => by simp [Discards, hold]) fun q _ => ?_
    by_cases hq : q = place <;> simp [hq, hold]
  | some old =>
    have hhas : (w.detached c).has old := by
      simpa using has_of_parent? ((h.link _ _).mp hold)
    refine (hd.severed hhas).congr (fun x _ => ?_) fun q _ => ?_
    · simp [Discards, hold, under_detached (h.not_under_occupant hne hu old hold)]
    · have hq : w.occupant? q = some old ↔ q = place := h.occupant?_iff ((h.link _ _).mp hold)
      grind

/-- A block that is in a place already is supplied by doing nothing. -/
theorem Sound.supplied_of_occupant (h : Sound True typed w) (hc : w.occupant? place = some c) :
    w.Supplied place c w := by
  have hp := (h.linked.link _ _).mp hc
  refine Relinked.supplied_of_content ((Relinked.refl h.linked).congr (fun x _ => ?_) fun q _ => ?_) h.linked
    (h.acyclic trivial) (has_of_parent? hp) (h.linked.has_block hp) ((h.acyclic trivial).not_under hp)
  · simp [Discards, hc]
  · have hq : w.occupant? q = some c ↔ q = place := h.linked.occupant?_iff hp
    grind [Workspace.supplied]

/-- What `connectValue` does when it is carried out. -/
theorem connectValue_supplied (hd : shapes.Distinct) (hw : Edited shapes w)
    (hok : (connectValue p s c).perform w = (.ok (), w')) : w.Supplied (.input p s) c w' := by
  have h : Sound True False w := hw.sound hd False.elim
  have hl := h.linked
  have hensures : (connectValue p s c).Ensures w (fun _ w' => w.Supplied (.input p s) c w')
      fun _ _ => True := by
    refine hl.ensures_connectValue h.supplied_of_occupant (fun _ => trivial) fun b k d hb hk hd ht hne hu => ?_
    have hr := hl.relinked_displaced hne hu
    have hc : w.has c := has_iff.mpr ⟨d, hd⟩
    have hc' : (w.displaced (.input p s) c).has c :=
      (hr.has c).mpr ⟨hc, fun ⟨_, _, _, _, hno⟩ => hno .self⟩
    refine ensures_attachInput hc' (fun hp => ?_) fun _ _ => trivial
    have hp' := has_of_offers hp
    refine Relinked.supplied_of_content ((hr.attached hp ?_ hc' ?_).congr (fun _ _ => Iff.rfl) fun q _ => ?_) hl
      (h.acyclic trivial) hc (by simpa using hp') hu
    · rw [hr.content _ hp', if_pos (.inl rfl)]
    · exact hr.parent?_eq_none fun q hq => by grind
    · grind [Workspace.supplied]
  exact hensures.of_ok hok

/-- A number that is plugged into a stand-in comes to the socket that the stand-in holds; the other number
that was plugged into it is deleted. -/
theorem connectValue_supplied_of_nested :
    let w := [Action.add ⟨"print"⟩ "text_print" false, .add ⟨"sum"⟩ "math_arithmetic" true,
      .add ⟨"one"⟩ "math_number" false, .add ⟨"two"⟩ "math_number" false,
      .connectValue ⟨"print"⟩ "TEXT" ⟨"sum"⟩, .connectValue ⟨"sum"⟩ "A" ⟨"one"⟩,
      .connectValue ⟨"sum"⟩ "B" ⟨"two"⟩].foldl Action.apply (.empty Python.standard.shapes)
    let w' := ((connectValue ⟨"print"⟩ "TEXT" ⟨"one"⟩).perform w).2
    Python.standard.shapes.Distinct ∧ Edited Python.standard.shapes w ∧
    (connectValue ⟨"print"⟩ "TEXT" ⟨"one"⟩).perform w = (.ok (), w') ∧
    w.Supplied (.input ⟨"print"⟩ "TEXT") ⟨"one"⟩ w' ∧ w'.ids = [⟨"print"⟩, ⟨"one"⟩] := by
  intro w w'
  have hw : Edited Python.standard.shapes w := Edited.empty.run _
  have hok : (connectValue ⟨"print"⟩ "TEXT" ⟨"one"⟩).perform w = (.ok (), w') := by decide +kernel
  exact ⟨Python.standard_distinct, hw, hok, connectValue_supplied Python.standard_distinct hw hok,
    by decide +kernel⟩

end BlockProgram.Workspace
