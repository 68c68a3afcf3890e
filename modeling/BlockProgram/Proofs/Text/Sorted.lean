import BlockProgram.Text.Sorted
import Mathlib.Order.RelClasses

/-! A list that is sorted without repetitions has the same members, each once and in order. -/
namespace BlockProgram.Text

variable {α : Type} [LT α] [DecidableLT α] [DecidableEq α] {a b : α} {l values : List α}

private theorem mem_insertSorted : b ∈ insertSorted a l ↔ b = a ∨ b ∈ l := by
  induction l with
  | nil => exact List.mem_singleton.trans (or_iff_left List.not_mem_nil).symm
  | cons c l ih =>
    unfold insertSorted
    split
    · exact List.mem_cons
    · split
      · rename_i hac
        rw [hac]
        exact (or_iff_right_of_imp fun hb => hb ▸ List.mem_cons_self).symm
      · rw [List.mem_cons, ih, List.mem_cons, or_left_comm]

theorem mem_sortedOnce : a ∈ sortedOnce values ↔ a ∈ values := by
  suffices h : ∀ l, a ∈ values.foldl (fun sorted a => insertSorted a sorted) l ↔ a ∈ l ∨ a ∈ values from
    (h []).trans (or_iff_right List.not_mem_nil)
  intro l
  induction values generalizing l with
  | nil => exact (or_iff_left List.not_mem_nil).symm
  | cons b values ih =>
    rw [List.foldl_cons, ih, mem_insertSorted, List.mem_cons, or_assoc, or_left_comm]

variable [IsStrictTotalOrder α (· < ·)]

private theorem pairwise_insertSorted (h : l.Pairwise (· < ·)) : (insertSorted a l).Pairwise (· < ·) := by
  induction l with
  | nil => exact List.pairwise_singleton _ a
  | cons c l ih =>
    obtain ⟨hc, hl⟩ := List.pairwise_cons.mp h
    unfold insertSorted
    split
    · rename_i hac
      exact List.pairwise_cons.mpr ⟨List.forall_mem_cons.mpr ⟨hac, fun b hb => IsTrans.trans _ _ _ hac (hc b hb)⟩,
        h⟩
    · split
      · exact h
      · rename_i hac hne
        have hca : c < a := (trichotomous_of (· < ·) a c).resolve_left hac |>.resolve_left hne
        refine List.pairwise_cons.mpr ⟨fun b hb => ?_, ih hl⟩
        rcases mem_insertSorted.mp hb with rfl | hb
        · exact hca
        · exact hc b hb

/-- The values are in order, and none of them is repeated. -/
theorem pairwise_sortedOnce (values : List α) : (sortedOnce values).Pairwise (· < ·) := by
  suffices h : ∀ l : List α, l.Pairwise (· < ·) →
      (values.foldl (fun sorted a => insertSorted a sorted) l).Pairwise (· < ·) from
    h [] List.Pairwise.nil
  intro l hl
  induction values generalizing l with
  | nil => exact hl
  | cons a values ih => exact ih _ (pairwise_insertSorted hl)

theorem nodup_sortedOnce (values : List α) : (sortedOnce values).Nodup :=
  (pairwise_sortedOnce values).imp ne_of_irrefl

end BlockProgram.Text
