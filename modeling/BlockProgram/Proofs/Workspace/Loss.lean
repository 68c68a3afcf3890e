import BlockProgram.Proofs.Workspace.Sound

/-! What is lost when blocks leave their places: stand-ins, each with all that is beneath and after it, be
that stand-ins too or blocks that a user has put there. -/
namespace BlockProgram.Workspace

/-- Whether a block stands in for what the user has not plugged in yet. -/
def standIn (w : Workspace) (c : BlockId) : Bool := (w.find? c).any (·.shadow)

/-- Whatever of `w` is gone in `w'` was beneath a stand-in that is gone as well. -/
def Sheds (w w' : Workspace) : Prop :=
  ∀ x, w.has x → w'.has x ∨ ∃ c, w.standIn c ∧ ¬ w'.has c ∧ w.Under c x

/-- Blocks have left their places, and some stand-ins are gone with all that was beneath them. -/
structure Culled (w w' : Workspace) : Prop extends Pruned w w' where
  sheds : w.Sheds w'

variable {w w' w'' : Workspace} {c x : BlockId}

theorem standIn_eq : w.standIn c = (w.bare? c).any (·.shadow) := by
  unfold standIn bare?
  cases w.find? c <;> rfl

theorem standIn_iff : w.standIn c ↔ ∃ b, w.bare? c = some b ∧ b.shadow := by
  rw [standIn_eq, Option.any_eq_true]

theorem Sheds.of_has (h : ∀ x, w.has x → w'.has x) : w.Sheds w' := fun x hx => .inl (h x hx)

theorem Sheds.refl (w : Workspace) : w.Sheds w := .of_has fun _ h => h

/-- What is done afterwards does not matter if every block stays. -/
theorem Sheds.congr (h : w.Sheds w') (hhas : ∀ x, w''.has x = w'.has x) : w.Sheds w'' := by
  intro x hx
  simp only [hhas]
  exact h x hx

theorem Culled.refl (w : Workspace) : Culled w w := ⟨.refl w, .refl w⟩

theorem Culled.trans (h : Culled w w') (h' : Culled w' w'') : Culled w w'' where
  toPruned := h.toPruned.trans h'.toPruned
  sheds x hx := by
    rcases h.sheds x hx with hx' | hgone
    · refine (h'.sheds x hx').imp_right fun ⟨c, hc, hgone, hu⟩ => ⟨c, ?_, hgone, h.under hu⟩
      obtain ⟨b, hb, hshadow⟩ := standIn_iff.mp hc
      exact standIn_iff.mpr ⟨b, h.bare c b hb, hshadow⟩
    · exact .inr (hgone.imp fun _ ⟨hc, hgone, hu⟩ => ⟨hc, fun hc' => hgone (h'.has hc'), hu⟩)

theorem culled_detached (w : Workspace) (c : BlockId) : Culled w (w.detached c) :=
  ⟨pruned_detached w c, .of_has fun _ h => by simpa using h⟩

/-- What is beneath a block stays beneath it when the block leaves its place. -/
theorem under_detached_self : (w.detached c).Under c x ↔ w.Under c x :=
  ⟨(pruned_detached w c).under, fun h => h.keep fun y _ _ hne => by rw [parent?_detached, if_neg hne]⟩

/-- What is beneath a block that has left its place is beneath nothing else any more. -/
theorem under_detached {a : BlockId} (ha : ¬ w.Under c a) :
    (w.detached c).Under a x ↔ w.Under a x ∧ ¬ w.Under c x := by
  constructor
  · intro h
    refine ⟨(pruned_detached w c).under h, ?_⟩
    induction h with
    | self => exact ha
    | @step x place hp _ ih =>
      rw [parent?_detached] at hp
      split at hp
      · cases hp
      · rename_i hne
        intro hc
        cases hc with
        | self => exact hne rfl
        | step hp' hc => exact ih (Option.some.inj (hp'.symm.trans hp) ▸ hc)
  · rintro ⟨h, hc⟩
    refine h.keep fun y _ hy _ => ?_
    rw [parent?_detached, if_neg]
    rintro rfl
    exact hc hy

@[simp] theorem standIn_detached {a : BlockId} : (w.detached c).standIn a = w.standIn a := by
  simp [standIn_eq]

/-- A stand-in that is severed is gone with all that is beneath it, and nothing else is. -/
theorem Linked.has_severed_iff (h : w.Linked) (hc : w.has c) :
    (w.severed c).has x ↔ w.has x ∧ ¬ (w.standIn c ∧ w.Under c x) := by
  unfold Workspace.severed
  rw [← standIn_eq]
  split
  · rename_i hshadow
    rw [has_withoutSubtree, has_detached, (h.detached c).mem_descendants (by simpa using hc),
      under_detached_self]
    simp [hshadow]
  · rename_i hshadow
    simp [hshadow]

theorem Linked.culled_severed (h : w.Linked) (hc : w.has c) : Culled w (w.severed c) := by
  refine ⟨pruned_severed w c, fun x hx => ?_⟩
  by_cases hgone : w.standIn c ∧ w.Under c x
  · exact .inr ⟨c, hgone.1, fun hc' => ((h.has_severed_iff hc).mp hc').2 ⟨hgone.1, .self⟩, hgone.2⟩
  · exact .inl ((h.has_severed_iff hc).mpr ⟨hx, hgone⟩)

end BlockProgram.Workspace
