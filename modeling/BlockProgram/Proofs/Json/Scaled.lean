import BlockProgram.Json.Reader
import BlockProgram.Proofs.Number.Rounding
import BlockProgram.Proofs.Number.Shortest

/-! A number is read from its significand and a power of ten, each of them rounded. The shortest decimal
of a finite number stays in range that way, even that of the largest one. -/
namespace BlockProgram.Json.Reader

open Binary64

variable {m n : Nat} {e : Int} {x : Binary64}

theorem isSome_scaled_of_neg (he : e < 0) (fuel : Nat) (x : Binary64) :
    (scaled fuel x e).isSome := by
  induction fuel generalizing x e with
  | zero => rfl
  | succ fuel ih =>
    have hnot : ¬ 308 < e := by omega
    simp only [scaled, hnot, if_false, he, if_true]
    split
    · split
      · rfl
      · exact ih (by omega) _
    · rfl

private theorem size_ofNat_le (hm : (m : ℚ) < limit) :
    (Binary64.ofNat m).isFinite ∧ (Binary64.ofNat m).size ≤ m * (1 + 1 / 2 ^ 53) := by
  have hone : (m : ℚ) / (1 : Nat) = m := by simp
  refine ⟨isFinite_ofRatio false (by decide) (by rwa [hone]), ?_⟩
  rcases Nat.eq_zero_or_pos m with rfl | hpos
  · have hzero : (Binary64.ofNat 0).size = 0 := by
      have hvalue : (Binary64.ofNat 0).value = .finite false 0 (-1074) := by decide
      simp [Binary64.size, hvalue]
    simp [hzero]
  · have hle := size_ofRatio_le false (show 0 < 1 by decide)
      (show 1 ≤ (m : ℚ) / (1 : Nat) by rw [hone]; exact_mod_cast hpos) (by rwa [hone])
    rwa [hone] at hle

/-- A product below the limit stays finite. -/
theorem isFinite_times {y : Binary64} (hx : x.isFinite) (hy : y.isFinite)
    (hlimit : x.size * y.size < limit) : (x.times y).isFinite := by
  obtain ⟨a, b, hab, hb, hxs⟩ := ratio?_eq hx
  obtain ⟨c, d, hcd, hd, hys⟩ := ratio?_eq hy
  unfold Binary64.times
  rw [hab, hcd]
  refine isFinite_ofRatio _ (Nat.mul_pos hb hd) ?_
  push_cast
  rw [← div_mul_div_comm, hxs, hys]
  exact hlimit

private theorem limit_between : (10 : ℚ) ^ 308 < limit ∧ limit < 10 ^ 309 := by
  have hlow : 10 ^ 308 < 18014398509481983 * 2 ^ 970 := by decide +kernel
  have hhigh : 18014398509481983 * 2 ^ 970 < 10 ^ 309 := by decide +kernel
  have hlimit : limit = (18014398509481983 : ℚ) * 2 ^ 970 := by
    rw [limit]
    congr 1
    norm_num
  rw [hlimit]
  exact ⟨by exact_mod_cast hlow, by exact_mod_cast hhigh⟩

private theorem scaled_of_nonneg (he : 0 ≤ e) (fuel : Nat) (x : Binary64) :
    scaled (fuel + 1) x e =
      if 308 < e then if x.isZero then some x else none
      else if (x.times (.ofDecimal false 1 e)).isInfinite then none
        else some (x.times (.ofDecimal false 1 e)) := by
  rw [scaled, if_neg (by omega : ¬ e < -308), if_neg (by omega : ¬ e < 0)]

private theorem size_powerOfTen_le (hn : n ≤ 308) :
    (Binary64.ofDecimal false 1 n).isFinite ∧
      (Binary64.ofDecimal false 1 n).size ≤ 10 ^ n * (1 + 1 / 2 ^ 53) := by
  have hle : (10 : ℚ) ^ n ≤ 10 ^ 308 := pow_le_pow_right₀ (by norm_num) hn
  have hlt : ((10 ^ n : Nat) : ℚ) < limit := by
    push_cast
    exact lt_of_le_of_lt hle limit_between.1
  obtain ⟨hfinite, hsize⟩ := size_ofNat_le hlt
  unfold Binary64.ofDecimal
  rw [if_neg (by omega), Int.toNat_natCast, Nat.one_mul]
  push_cast at hsize
  exact ⟨hfinite, hsize⟩

/-- Only zero stays in range when it is scaled that far. -/
theorem eq_zero_of_mul_lt_limit (hn : 308 < n) (h : (m : ℚ) * 10 ^ n < limit) : m = 0 := by
  refine Nat.eq_zero_of_not_pos fun hm => ?_
  have hm1 : (1 : ℚ) ≤ m := by exact_mod_cast hm
  have hle : (10 : ℚ) ^ 309 ≤ 10 ^ n := pow_le_pow_right₀ (by norm_num) (by omega)
  have hlarger : (10 : ℚ) ^ n ≤ m * 10 ^ n := le_mul_of_one_le_left (by positivity) hm1
  exact absurd (limit_between.2.trans_le (hle.trans hlarger)) h.not_gt

private theorem isInfinite_eq_false (h : x.isFinite) : x.isInfinite = false := by
  unfold Binary64.isInfinite
  unfold Binary64.isFinite at h
  simp only [decide_eq_true_eq] at h
  simp [h]

/-- Rounding the significand and the power of ten costs one part in `2 ^ 53` each. -/
theorem isSome_scaled (h : (m : ℚ) * 10 ^ e * (1 + 1 / 2 ^ 53) ^ 2 < limit) :
    (scaled 4 (.ofNat m) e).isSome := by
  rcases Int.lt_or_le e 0 with hneg | hpos
  · exact isSome_scaled_of_neg hneg 4 _
  rw [scaled_of_nonneg hpos 3]
  obtain ⟨n, rfl⟩ := Int.eq_ofNat_of_zero_le hpos
  rw [zpow_natCast] at h
  have hpow : (1 : ℚ) ≤ 10 ^ n := one_le_pow₀ (by norm_num)
  have hstep : (1 : ℚ) ≤ (1 + 1 / 2 ^ 53) ^ 2 := one_le_pow₀ (by norm_num)
  have hproduct : (m : ℚ) * 10 ^ n < limit :=
    lt_of_le_of_lt (le_mul_of_one_le_right (by positivity) hstep) h
  have hm : (m : ℚ) < limit :=
    lt_of_le_of_lt (le_mul_of_one_le_right (by positivity) hpow) hproduct
  split
  · rename_i hlarge
    rw [eq_zero_of_mul_lt_limit (by omega) hproduct]
    decide
  · rename_i hsmall
    obtain ⟨hfinite, hsize⟩ := size_ofNat_le hm
    obtain ⟨hfinite', hsize'⟩ := size_powerOfTen_le (show n ≤ 308 by omega)
    have hbelow : (Binary64.ofNat m).size * (Binary64.ofDecimal false 1 n).size < limit := by
      refine lt_of_le_of_lt ?_ h
      calc _ ≤ (m * (1 + 1 / 2 ^ 53)) * (10 ^ n * (1 + 1 / 2 ^ 53) : ℚ) :=
            mul_le_mul hsize hsize' (size_nonneg _) (by positivity)
        _ = _ := by ring
    rw [isInfinite_eq_false (isFinite_times hfinite hfinite' hbelow)]
    rfl

/-- The shortest decimal of `m * 2 ^ e` is read back without leaving the range. -/
private def Readable (m : Nat) (e : Int) : Prop :=
  (scaled 4 (.ofNat (Decimal.shortest .even m e).digits) (Decimal.shortest .even m e).exponent).isSome

private theorem readable_largest : Readable (2 ^ 53 - 1) 971 ∧ Readable (2 ^ 53 - 2) 971 := by
  unfold Readable
  decide +kernel

private theorem readable_of_lt (hpos : 0 < m)
    (hlt : (4 * m + 2) * 2 ^ (e - 2) * (1 + 1 / 2 ^ 53 : ℚ) ^ 2 < limit) : Readable m e :=
  isSome_scaled (lt_of_le_of_lt
    (mul_le_mul_of_nonneg_right (Decimal.near_shortest .even hpos e).high (by positivity)) hlt)

/-- The digits of a finite number can be scaled by its exponent without leaving the range. -/
theorem isSome_scaled_shortest (hpos : 0 < m) (hm : m < 2 ^ 53) (he : e ≤ 971) :
    (scaled 4 (.ofNat (Decimal.shortest .even m e).digits)
      (Decimal.shortest .even m e).exponent).isSome := by
  change Readable m e
  obtain ⟨unit, hunit, hlimit⟩ : ∃ unit : ℚ, 2 ^ (968 : Int) = unit ∧
      limit = (2 ^ 54 - 1) * 4 * unit := by
    refine ⟨_, rfl, ?_⟩
    rw [limit, show (970 : Nat) = 968 + 2 from rfl, pow_add,
      show (968 : Int) = ((968 : Nat) : Int) from rfl, zpow_natCast]
    generalize (2 : ℚ) ^ 968 = unit
    ring
  have hupos : 0 < unit := hunit ▸ by positivity
  rcases Int.lt_or_le e 971 with hbelow | htop
  · refine readable_of_lt hpos ?_
    have hmq : (m : ℚ) ≤ 2 ^ 53 - 1 := by
      have hle : m + 1 ≤ 2 ^ 53 := hm
      have hleq : (m : ℚ) + 1 ≤ 2 ^ 53 := by exact_mod_cast hle
      linarith
    have hpow : (2 : ℚ) ^ (e - 2) ≤ unit :=
      hunit ▸ zpow_le_zpow_right₀ (by norm_num) (by omega)
    rw [hlimit]
    calc (4 * (m : ℚ) + 2) * 2 ^ (e - 2) * (1 + 1 / 2 ^ 53) ^ 2
        ≤ (4 * (2 ^ 53 - 1) + 2) * unit * (1 + 1 / 2 ^ 53) ^ 2 := by gcongr
      _ = (4 * (2 ^ 53 - 1) + 2) * (1 + 1 / 2 ^ 53) ^ 2 * unit := by ring
      _ < _ := mul_lt_mul_of_pos_right (by norm_num) hupos
  · obtain rfl : e = 971 := le_antisymm he htop
    by_cases hlarge : m ≤ 2 ^ 53 - 3
    · refine readable_of_lt hpos ?_
      have hmq : (m : ℚ) ≤ 2 ^ 53 - 3 := by
        have hle : m + 3 ≤ 2 ^ 53 := by omega
        have hleq : (m : ℚ) + 3 ≤ 2 ^ 53 := by exact_mod_cast hle
        linarith
      rw [hlimit, show (971 - 2 : Int) = 968 + 1 by norm_num, zpow_add_one₀ (by norm_num), hunit]
      calc (4 * (m : ℚ) + 2) * (unit * 2) * (1 + 1 / 2 ^ 53) ^ 2
          ≤ (4 * (2 ^ 53 - 3) + 2) * (unit * 2) * (1 + 1 / 2 ^ 53) ^ 2 := by gcongr
        _ = (4 * (2 ^ 53 - 3) + 2) * 2 * (1 + 1 / 2 ^ 53) ^ 2 * unit := by ring
        _ < _ := mul_lt_mul_of_pos_right (by norm_num) hupos
    · obtain rfl | rfl : m = 2 ^ 53 - 1 ∨ m = 2 ^ 53 - 2 := by omega
      · exact readable_largest.1
      · exact readable_largest.2

end BlockProgram.Json.Reader
