import BlockProgram.Proofs.Workspace.Link

/-! Going up from a block along its places. A block is rooted if the way up ends at a block that is
plugged in nowhere; the bounded search for an ancestor finds every block on the way up. -/
namespace BlockProgram.Workspace

open Edit

/-- `x` is `a` itself or somewhere beneath it. -/
inductive Under (w : Workspace) (a : BlockId) : BlockId → Prop where
  | self : Under w a a
  | step {x : BlockId} {place : Attachment} (hp : w.parent? x = some place)
      (hu : Under w a place.block) : Under w a x

/-- Going up from a block ends at a block that is plugged in nowhere. -/
inductive Rooted (w : Workspace) : BlockId → Prop where
  | top {x : BlockId} (hx : w.has x) (hp : w.parent? x = none) : Rooted w x
  | under {x : BlockId} {place : Attachment} (hp : w.parent? x = some place)
      (hr : Rooted w place.block) : Rooted w x

/-- No links form a circle. -/
def Acyclic (w : Workspace) : Prop := ∀ x, w.has x → w.Rooted x

variable {w w' : Workspace} {a b c x : BlockId} {place : Attachment}

namespace Under

theorem of_parent (h : w.parent? x = some place) : w.Under place.block x := .step h .self

theorem trans (h : w.Under a b) (h' : w.Under b x) : w.Under a x := by
  induction h' with
  | self => exact h
  | step hp _ ih => exact .step hp ih

theorem eq_of_top (h : w.Under a x) (hp : w.parent? x = none) : a = x := by
  cases h with
  | self => rfl
  | step hp' => simp [hp] at hp'

/-- The way up is a single one. -/
theorem linear (ha : w.Under a x) (hb : w.Under b x) : w.Under a b ∨ w.Under b a := by
  induction ha with
  | self => exact .inr hb
  | step hp hu ih =>
    cases hb with
    | self => exact .inl (.step hp hu)
    | step hp' hu' =>
      cases Option.some.inj (hp.symm.trans hp')
      exact ih hu'

/-- Fewer places, fewer ways up. -/
theorem mono (hle : ∀ x place, w'.parent? x = some place → w.parent? x = some place)
    (h : w'.Under a x) : w.Under a x := by
  induction h with
  | self => exact .self
  | step hp _ ih => exact .step (hle _ _ hp) ih

/-- A block stays beneath another one if the way up between them stays. -/
theorem keep (h : w.Under a x)
    (hk : ∀ y, w.Under a y → w.Under y x → y ≠ a → w'.parent? y = w.parent? y) :
    w'.Under a x := by
  induction h with
  | self => exact .self
  | @step x place hp hu ih =>
    by_cases hx : x = a
    · exact hx ▸ .self
    · exact .step ((hk x (.step hp hu) .self hx).trans hp)
        (ih fun y hy hyp => hk y hy (.step hp hyp))

/-- A way up after a block has been put into a place leads through that place or was there before. -/
theorem attached (hc : w.has c) (h : (w.attached place c).Under a x) :
    w.Under a x ∨ w.Under c x ∧ w.Under a place.block := by
  induction h with
  | self => exact .inl .self
  | @step x q hp _ ih =>
    rw [parent?_attached hc] at hp
    by_cases hx : x = c
    · subst hx
      rw [if_pos rfl] at hp
      cases hp
      exact .inr ⟨.self, ih.elim id (·.2)⟩
    · rw [if_neg hx] at hp
      exact ih.imp (.step hp) fun ⟨hcx, ha⟩ => ⟨.step hp hcx, ha⟩

end Under

theorem Rooted.not_under (h : w.Rooted x) (hp : w.parent? x = some place) :
    ¬ w.Under x place.block := by
  induction h generalizing place with
  | top _ htop => simp [htop] at hp
  | @under x q hq _ ih =>
    cases Option.some.inj (hq.symm.trans hp)
    intro hu
    -- the place of `x` would be on its own way up, one step earlier
    cases hu with
    | self => exact ih hp .self
    | step hr hu' => exact ih hr ((Under.of_parent hp).trans hu')

/-- Without circles no block is above its own place. -/
theorem Acyclic.not_under (h : w.Acyclic) (hp : w.parent? x = some place) :
    ¬ w.Under x place.block := (h x (has_of_parent? hp)).not_under hp

/-- A circle shows in any block that is beneath itself. -/
theorem not_acyclic (hp : w.parent? x = some place) (hu : w.Under x place.block) : ¬ w.Acyclic :=
  fun h => h.not_under hp hu

theorem Linked.has_block (h : w.Linked) (hp : w.parent? x = some place) : w.has place.block :=
  has_of_offers (offers_of_occupant? ((h.link place x).mpr hp))

theorem Under.has_below (h : w.Under a x) (ha : w.has a) : w.has x := by
  cases h with
  | self => exact ha
  | step hp _ => exact has_of_parent? hp

/-- Nothing new is beneath another block after a link is gone, so no circle arises. -/
theorem Acyclic.mono (h : w.Acyclic) (hl : w'.Linked)
    (hle : ∀ x place, w'.parent? x = some place → w.parent? x = some place) : w'.Acyclic := by
  have hkeep : ∀ x, w.Rooted x → w'.has x → w'.Rooted x := by
    intro x hr
    induction hr with
    | @top x _ hp =>
      intro hx
      refine .top hx ?_
      cases hq : w'.parent? x with
      | none => rfl
      | some q => simp [hle x q hq] at hp
    | @under x place hp _ ih =>
      intro hx
      cases hq : w'.parent? x with
      | none => exact .top hx hq
      | some q =>
        cases Option.some.inj ((hle x q hq).symm.trans hp)
        exact .under hq (ih (hl.has_block hq))
  intro x hx
  cases hq : w'.parent? x with
  | none => exact .top hx hq
  | some q => exact hkeep x (h x (has_of_parent? (hle x q hq))) hx

/-- A block may go into a place that is not beneath it. -/
theorem Acyclic.attached (h : w.Acyclic) (hc : w.has c) (hu : ¬ w.Under c place.block)
    (hp : w.has place.block) : (w.attached place c).Acyclic := by
  -- what is not beneath `c` keeps its way up; any other way leads through `c`
  have hkeep : ∀ x, w.Rooted x → ¬ w.Under c x → (w.attached place c).Rooted x := by
    intro x hr
    induction hr with
    | @top x hx hp =>
      intro hcx
      have hne : x ≠ c := fun he => hcx (he ▸ .self)
      exact .top (by simpa using hx) (by simpa [parent?_attached hc, hne] using hp)
    | @under x q hq _ ih =>
      intro hcx
      have hne : x ≠ c := fun he => hcx (he ▸ .self)
      exact .under (by simpa [parent?_attached hc, hne] using hq) (ih fun hu => hcx (.step hq hu))
  have hcr : (w.attached place c).Rooted c :=
    .under (by simp [parent?_attached hc]) (hkeep _ (h _ hp) hu)
  intro x hx
  have hr := h x (by simpa using hx)
  induction hr with
  | @top x hx' hp' =>
    by_cases he : x = c
    · exact he ▸ hcr
    · exact .top hx (by simpa [parent?_attached hc, he] using hp')
  | @under x q hq _ ih =>
    by_cases he : x = c
    · exact he ▸ hcr
    · have hq' : (w.attached place c).parent? x = some q := by
        simpa [parent?_attached hc, he] using hq
      refine .under hq' ?_
      by_cases hcq : w.Under c q.block
      · exact ih (by simpa using hcq.has_below hc)
      · exact hkeep _ (by rename_i hr; exact hr) hcq

/-- The blocks passed on the way up from `x` to `a`, without `a`. -/
inductive Path (w : Workspace) (a : BlockId) : BlockId → List BlockId → Prop where
  | nil : Path w a a []
  | cons {x : BlockId} {place : Attachment} {l : List BlockId} (hp : w.parent? x = some place)
      (hl : Path w a place.block l) : Path w a x (x :: l)

private theorem Path.from_mem {l : List BlockId} (h : w.Path a b l) (hx : x ∈ l) :
    ∃ l', w.Path a x l' ∧ l'.Sublist l := by
  induction h with
  | nil => simp at hx
  | @cons y place l hp hl ih =>
    rcases List.mem_cons.mp hx with rfl | hx
    · exact ⟨_, .cons hp hl, .refl _⟩
    · obtain ⟨l', h', hs⟩ := ih hx
      exact ⟨l', h', hs.cons y⟩

/-- Loops on the way up can be left out. -/
theorem Under.path (h : w.Under a x) : ∃ l, w.Path a x l ∧ l.Nodup := by
  induction h with
  | self => exact ⟨[], .nil, List.nodup_nil⟩
  | @step x place hp _ ih =>
    obtain ⟨l, hl, hn⟩ := ih
    by_cases hx : x ∈ l
    · obtain ⟨l', hl', hs⟩ := hl.from_mem hx
      exact ⟨l', hl', hn.sublist hs⟩
    · exact ⟨x :: l, .cons hp hl, List.nodup_cons.mpr ⟨hx, hn⟩⟩

private theorem Path.subset_ids {l : List BlockId} (h : w.Path a x l) : l ⊆ w.ids := by
  induction h with
  | nil => simp
  | cons hp _ ih => exact List.cons_subset.mpr ⟨has_iff_mem_ids.mp (has_of_parent? hp), ih⟩

private theorem climbs_of_path {l : List BlockId} {fuel : Nat} (h : w.Path a place.block l)
    (hf : l.length < fuel) : w.climbs a fuel (some place) := by
  induction fuel generalizing place l with
  | zero => omega
  | succ fuel ih =>
    cases h with
    | nil => simp [climbs]
    | @cons _ q l hp hl =>
      have := ih hl (by simpa using hf)
      simp [climbs, hp, this]

private theorem under_of_climbs {fuel : Nat} (h : w.climbs a fuel (some place)) :
    w.Under a place.block := by
  induction fuel generalizing place with
  | zero => simp [climbs] at h
  | succ fuel ih =>
    simp only [climbs, Bool.or_eq_true, decide_eq_true_eq] at h
    rcases h with h | h
    · exact h ▸ .self
    · cases hq : w.parent? place.block with
      | none => cases fuel <;> simp [hq, climbs] at h
      | some q => exact .step hq (ih (hq ▸ h))

/-- The bounded search finds exactly the blocks on the way up. -/
theorem isAncestor_iff :
    w.isAncestor a x ↔ ∃ place, w.parent? x = some place ∧ w.Under a place.block := by
  unfold isAncestor
  cases hp : w.parent? x with
  | none => simp [climbs]
  | some place =>
    constructor
    · exact fun h => ⟨place, rfl, under_of_climbs h⟩
    · rintro ⟨_, ⟨⟩, hu⟩
      obtain ⟨l, hl, hn⟩ := hu.path
      have hle := hn.length_le_of_subset hl.subset_ids
      exact climbs_of_path hl (by simpa [ids] using Nat.lt_succ_of_le hle)

/-- A link is refused exactly if its upper block is beneath its lower one. -/
theorem ensures_refuseCycle {p : BlockId} {ok : Unit → Workspace → Prop}
    {refused : EditError → Workspace → Prop} (hok : ¬ w.Under c p → ok () w)
    (hrefused : w.Under c p → refused (.cycle p c) w) :
    (refuseCycle p c).Ensures w ok refused := by
  have hiff : (p = c ∨ w.isAncestor c p) ↔ w.Under c p := by
    rw [isAncestor_iff]
    constructor
    · rintro (rfl | ⟨place, hp, hu⟩)
      · exact .self
      · exact .step hp hu
    · rintro (_ | ⟨hp, hu⟩)
      · exact .inl rfl
      · exact .inr ⟨_, hp, hu⟩
  unfold refuseCycle
  rw [ensures_bind, ensures_get]
  by_cases h : w.Under c p
  · rw [if_pos (by simpa using hiff.mpr h)]
    exact hrefused h
  · rw [if_neg (by simpa using fun he => h (hiff.mp he))]
    exact hok h

end BlockProgram.Workspace
