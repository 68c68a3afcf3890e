import BlockProgram.Proofs.Python.Calls

/-! The calls beneath one block. Where they are no more than so many levels deep they cannot go round, so
they form a tree as soon as every block beneath is called once at most. -/
namespace BlockProgram.Python

variable {next : BlockId → List BlockId} {root a b c p q x : BlockId} {levels n m : Nat}

theorem Within.trans (h : Within next a b n) (h' : Within next b c m) : Within next a c (n + m) := by
  induction h' with
  | self => exact h
  | call _ hc ih => exact .call ih hc

/-- All blocks within the given one are fewer than so many calls away. -/
def Shallow (next : BlockId → List BlockId) (levels : Nat) (root : BlockId) : Prop :=
  ∀ x n, Within next root x n → n < levels

theorem shallow_succ : Shallow next (levels + 1) root ↔ ∀ c ∈ next root, Shallow next levels c := by
  constructor
  · intro h c hc x n hx
    exact Nat.lt_of_succ_lt_succ (h x (n + 1) (hx.cons hc))
  · intro h x n hx
    rcases hx.cases_cons with ⟨-, rfl⟩ | ⟨c, hc, k, rfl, hk⟩
    · exact Nat.succ_pos levels
    · exact Nat.succ_lt_succ (h c hc x k hk)

instance decidableShallow (next : BlockId → List BlockId) :
    (levels : Nat) → (root : BlockId) → Decidable (Shallow next levels root)
  | 0, root => .isFalse fun h => Nat.not_lt_zero 0 (h root 0 .self)
  | levels + 1, root =>
    have : ∀ c, Decidable (Shallow next levels c) := decidableShallow next levels
    decidable_of_iff (∀ c ∈ next root, Shallow next levels c) shallow_succ.symm

/-- Calls that lead back to a block could be made again and again. -/
theorem Shallow.acyclic (h : Shallow next levels root) (hp : Within next root p n) (hc : c ∈ next p) :
    ¬ Within next c p m := by
  intro hback
  have hround (k : Nat) : ∃ j, k ≤ j ∧ Within next root p j := by
    induction k with
    | zero => exact ⟨n, Nat.zero_le n, hp⟩
    | succ k ih =>
      obtain ⟨j, hj, hwithin⟩ := ih
      exact ⟨j + (m + 1), by omega, hwithin.trans (hback.cons hc)⟩
  obtain ⟨j, hj, hwithin⟩ := hround levels
  exact absurd (h p j hwithin) (by omega)

open Classical in
/-- The calls of the blocks within `root`; all others call nothing. -/
noncomputable def beneath (next : BlockId → List BlockId) (root p : BlockId) : List BlockId :=
  if ∃ n, Within next root p n then next p else []

/-- Beneath a root the calls are those of the blocks that are reached from it. -/
theorem mem_beneath : c ∈ beneath next root p ↔ (∃ n, Within next root p n) ∧ c ∈ next p := by
  unfold beneath
  split <;> simp_all

theorem Within.of_beneath (h : Within (beneath next root) a x n) : Within next a x n :=
  h.mono fun _ _ hc => (mem_beneath.mp hc).2

theorem tree_beneath (hshallow : Shallow next levels root)
    (hnodup : ∀ p n, Within next root p n → (next p).Nodup)
    (hunique : ∀ {p q c n m}, Within next root p n → Within next root q m → c ∈ next p →
      c ∈ next q → p = q) : Tree (beneath next root) where
  nodup p := by
    unfold beneath
    split
    · rename_i hp
      obtain ⟨n, hp⟩ := hp
      exact hnodup p n hp
    · exact List.nodup_nil
  unique hc hc' := by
    obtain ⟨⟨n, hp⟩, hc⟩ := mem_beneath.mp hc
    obtain ⟨⟨m, hq⟩, hc'⟩ := mem_beneath.mp hc'
    exact hunique hp hq hc hc'
  acyclic hc hback := by
    obtain ⟨⟨n, hp⟩, hc⟩ := mem_beneath.mp hc
    exact hshallow.acyclic hp hc hback.of_beneath

end BlockProgram.Python
