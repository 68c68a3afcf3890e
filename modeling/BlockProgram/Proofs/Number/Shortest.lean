import BlockProgram.Number.Decimal
import BlockProgram.Proofs.Number.Digits
import Mathlib.Algebra.Order.Field.Power
import Mathlib.Data.Rat.Cast.Order
import Mathlib.Tactic.FieldSimp
import Mathlib.Tactic.Linarith
import Mathlib.Tactic.NormNum
import Mathlib.Tactic.Positivity
import Mathlib.Tactic.Ring

/-! The shortest decimal of a number. It is no larger than what lies half way to the next number, and it
has so few digits that they fit 64 bits. -/
namespace BlockProgram.Decimal

variable {tie : Tie} {i : Interval} {d : Decimal} {mantissa : Nat} {exponent unit lead step : Int}

def size (d : Decimal) : ℚ := d.digits * 10 ^ d.exponent

/-- The parts of a power above and below the line. -/
theorem halves_eq (b : Nat) (x : Int) :
    ((if x < 0 then 1 else Nat.pow b x.toNat : Nat) : ℚ) /
      (if x < 0 then Nat.pow b (-x).toNat else 1 : Nat) = (b : ℚ) ^ x := by
  split
  · rename_i hx
    obtain ⟨n, hn⟩ := Int.eq_ofNat_of_zero_le (show 0 ≤ -x by omega)
    rw [hn, show x = -(n : Int) by omega]
    simp
  · rename_i hx
    obtain ⟨n, rfl⟩ := Int.eq_ofNat_of_zero_le (show 0 ≤ x by omega)
    simp

private theorem powerQuotient_eq (twos tens : Int) :
    0 < (powerQuotient twos tens).2 ∧
      ((powerQuotient twos tens).1 : ℚ) / (powerQuotient twos tens).2 = 2 ^ twos / 10 ^ tens := by
  have hpos (b n : Nat) (hb : 0 < b) : 0 < Nat.pow b n := Nat.pow_pos hb
  have h2 := halves_eq 2 twos
  have h10 := halves_eq 10 tens
  push_cast at h2 h10
  refine ⟨Nat.mul_pos ?_ ?_, ?_⟩
  · split
    · exact hpos 2 _ (by decide)
    · decide
  · split
    · decide
    · exact hpos 10 _ (by decide)
  · rw [← h2, ← h10]
    unfold powerQuotient
    push_cast
    rw [div_div_div_eq]

theorem Interval.bounds_of_holds {point den : Nat} (h : i.holds point den) :
    i.low * den ≤ point ∧ point ≤ i.high * den := by
  unfold Interval.holds at h
  split at h
  · simp only [Bool.and_eq_true, decide_eq_true_eq] at h
    exact h
  · simp only [Bool.and_eq_true, decide_eq_true_eq] at h
    exact ⟨Nat.le_of_lt h.1, Nat.le_of_lt h.2⟩

/-- Whichever neighbour is taken, it has been found to read back. -/
theorem holds_of_onGrid (h : onGrid tie i unit step = some d) :
    d.exponent = step ∧
      i.holds (d.digits * (powerQuotient unit step).2) (powerQuotient unit step).1 := by
  unfold onGrid at h
  generalize powerQuotient unit step = q at h ⊢
  obtain ⟨num, den⟩ := q
  dsimp only at h ⊢
  obtain ⟨digits, hdigits, rfl⟩ := Option.map_eq_some_iff.mp h
  refine ⟨rfl, ?_⟩
  split at hdigits
  · rename_i hbelow habove
    have hbelow := (Bool.and_eq_true_iff.mp hbelow).2
    split at hdigits
    · exact Option.some.inj hdigits ▸ hbelow
    · split at hdigits
      · exact Option.some.inj hdigits ▸ habove
      · cases tie with
        | up => exact Option.some.inj hdigits ▸ habove
        | even =>
          obtain rfl := Option.some.inj hdigits
          split
          · exact hbelow
          · exact habove
  · rename_i hbelow habove
    exact Option.some.inj hdigits ▸ (Bool.and_eq_true_iff.mp hbelow).2
  · rename_i hbelow habove
    exact Option.some.inj hdigits ▸ habove
  · cases hdigits

/-- A point of a grid that reads back lies in the interval. -/
theorem size_of_onGrid (h : onGrid tie i unit step = some d) :
    d.exponent = step ∧ i.low * 2 ^ unit ≤ d.size ∧ d.size ≤ i.high * 2 ^ unit := by
  obtain ⟨rfl, hholds⟩ := holds_of_onGrid h
  obtain ⟨hlow, hhigh⟩ := Interval.bounds_of_holds hholds
  obtain ⟨hden, hquotient⟩ := powerQuotient_eq unit d.exponent
  generalize powerQuotient unit d.exponent = q at hden hquotient hlow hhigh
  obtain ⟨num, den⟩ := q
  dsimp only at hden hquotient hlow hhigh
  have hlow : (i.low : ℚ) * num ≤ d.digits * den := by exact_mod_cast hlow
  have hhigh : (d.digits : ℚ) * den ≤ i.high * num := by exact_mod_cast hhigh
  have hten : (0 : ℚ) < 10 ^ d.exponent := by positivity
  have hdenq : (0 : ℚ) < den := by exact_mod_cast hden
  have hnum : (num : ℚ) * 10 ^ d.exponent = 2 ^ unit * den := by
    rw [show (num : ℚ) = 2 ^ unit / 10 ^ d.exponent * den by rw [← hquotient]; field_simp]
    field_simp
  refine ⟨rfl, le_of_mul_le_mul_right ?_ hdenq, le_of_mul_le_mul_right ?_ hdenq⟩
  · calc (i.low : ℚ) * 2 ^ unit * den = i.low * num * 10 ^ d.exponent := by
          rw [mul_assoc, ← hnum, mul_assoc]
      _ ≤ d.digits * den * 10 ^ d.exponent := by gcongr
      _ = d.size * den := by unfold size; ring
  · calc d.size * den = d.digits * den * 10 ^ d.exponent := by unfold size; ring
      _ ≤ i.high * num * 10 ^ d.exponent := by gcongr
      _ = i.high * 2 ^ unit * den := by rw [mul_assoc, hnum, mul_assoc]

/-- A search that finds a decimal finds it on one of the grids that it goes through. -/
theorem exists_onGrid_of_search {left count : Nat} (h : search tie i unit lead left count = some d) :
    ∃ k : Nat, k < count + left ∧ onGrid tie i unit (lead - k) = some d := by
  induction left generalizing count with
  | zero => cases h
  | succ left ih =>
    unfold search at h
    split at h
    · rename_i d' hd
      exact ⟨count, by omega, hd.trans h⟩
    · obtain ⟨k, hk, hd⟩ := ih h
      exact ⟨k, by omega, hd⟩

private theorem pow_le_of_length {n k : Nat} (hn : 0 < n) (hk : (Nat.toDigits 10 n).length = k + 1) :
    10 ^ k ≤ n := by
  cases k with
  | zero => exact hn
  | succ k =>
    refine Nat.le_of_not_lt fun hlt => ?_
    have := (Nat.length_toDigits_le_iff (by decide) (Nat.succ_pos k)).mpr hlt
    omega

/-- Nothing stands before the leading digit. -/
theorem lt_leading {num den : Nat} (hnum : 0 < num) (hden : 0 < den) :
    (num : ℚ) < den * 10 ^ (leading num den + 1) := by
  unfold leading
  dsimp only
  split
  · rename_i hle
    have hlt : num / den < 10 ^ (Nat.toDigits 10 (num / den)).length :=
      (Nat.length_toDigits_le_iff (by decide) Nat.length_toDigits_pos).mp (Nat.le_refl _)
    generalize (Nat.toDigits 10 (num / den)).length = n at hlt
    have hmul : num < 10 ^ n * den := (Nat.div_lt_iff_lt_mul hden).mp hlt
    rw [sub_add_cancel, zpow_natCast, mul_comm]
    exact_mod_cast hmul
  · rename_i hlt
    have hone : 0 < (den - 1) / num := Nat.div_pos (by omega) hnum
    obtain ⟨k, hk⟩ : ∃ k, (Nat.toDigits 10 ((den - 1) / num)).length = k + 1 :=
      ⟨_, (Nat.sub_add_cancel Nat.length_toDigits_pos).symm⟩
    have hmul : 10 ^ k * num ≤ den - 1 :=
      (Nat.le_div_iff_mul_le hnum).mp (pow_le_of_length hone hk)
    have hmulq : (10 : ℚ) ^ k * num < den := by
      have : 10 ^ k * num < den := by omega
      exact_mod_cast this
    rw [hk, show -((k + 1 : Nat) : Int) + 1 = -(k : Int) by push_cast; ring, zpow_neg, zpow_natCast]
    have hten : (0 : ℚ) < 10 ^ k := by positivity
    rw [← div_eq_mul_inv, lt_div_iff₀ hten, mul_comm]
    exact hmulq

private theorem size_trim (d : Decimal) (n : Nat) : (d.trim n).digits ≤ d.digits ∧ (d.trim n).size = d.size := by
  induction n generalizing d with
  | zero => exact ⟨Nat.le_refl _, rfl⟩
  | succ n ih =>
    unfold trim
    split
    · rename_i hzero
      obtain ⟨hle, hsize⟩ := ih ⟨d.digits / 10, d.exponent + 1⟩
      refine ⟨Nat.le_trans hle (Nat.div_le_self _ _), hsize.trans ?_⟩
      have hdigits : (d.digits : ℚ) = (d.digits / 10 : Nat) * 10 := by
        exact_mod_cast (Nat.div_mul_cancel (Nat.dvd_of_mod_eq_zero hzero.2)).symm
      unfold size
      rw [hdigits, zpow_add_one₀ (by norm_num)]
      ring
    · exact ⟨Nat.le_refl _, rfl⟩

/-- What lies below `10 ^ (lead + 1)` has at most eighteen digits down to the last grid. -/
theorem digits_le {k : Nat} (hk : k < 18) (hd : d.exponent = lead - k)
    (hsize : d.size < 3 / 2 * 10 ^ (lead + 1)) : d.digits ≤ 15 * 10 ^ 17 := by
  unfold size at hsize
  have hten : (0 : ℚ) < 10 ^ (lead - k) := by positivity
  have hsplit : (10 : ℚ) ^ (lead + 1) = 10 ^ (k + 1) * 10 ^ (lead - k) := by
    rw [← zpow_natCast, ← zpow_add₀ (by norm_num)]
    congr 1
    push_cast
    ring
  have hpow : (10 : ℚ) ^ (k + 1) ≤ 10 ^ 18 := pow_le_pow_right₀ (by norm_num) (by omega)
  rw [hd, hsplit, ← mul_assoc] at hsize
  have hlt : (d.digits : ℚ) < 3 / 2 * 10 ^ (k + 1) := lt_of_mul_lt_mul_right hsize hten.le
  have hle : (d.digits : ℚ) ≤ (15 * 10 ^ 17 : Nat) := by
    push_cast
    linarith
  exact_mod_cast hle

/-- Where the shortest decimal of a number lies: within half a unit of it, and with so few digits that
they fit 64 bits. The search starts at the leading digit and always ends, but that is not needed here. -/
structure Near (mantissa : Nat) (exponent : Int) (d : Decimal) : Prop where
  low : d = ⟨0, 0⟩ ∨ 2 ^ (exponent - 1) ≤ d.size
  high : d.size ≤ (4 * mantissa + 2) * 2 ^ (exponent - 2)
  digits : d.digits ≤ 15 * 10 ^ 17

theorem shortest_zero (tie : Tie) (exponent : Int) : shortest tie 0 exponent = ⟨0, 0⟩ := rfl

private theorem two_le_low_around (hm : 0 < mantissa) :
    2 ≤ (Interval.around mantissa exponent).low := by
  unfold Interval.around
  dsimp only
  split <;> omega

/-- The search starts no further down than the leading digit of the number. -/
theorem lt_leading_powerQuotient {n : Nat} (hn : 0 < n) (unit : Int) :
    (n : ℚ) * 2 ^ unit <
      10 ^ (leading (n * (powerQuotient unit 0).1) (powerQuotient unit 0).2 + 1) := by
  obtain ⟨hden, hquotient⟩ := powerQuotient_eq unit 0
  generalize powerQuotient unit 0 = q at hden hquotient ⊢
  obtain ⟨num, den⟩ := q
  dsimp only at hden hquotient ⊢
  have hdenq : (0 : ℚ) < den := by exact_mod_cast hden
  have htwo : (0 : ℚ) < 2 ^ unit := by positivity
  have hnumq : (num : ℚ) = 2 ^ unit * den := by
    rw [zpow_zero, div_one] at hquotient
    rw [← hquotient]
    field_simp
  have hnum : 0 < num := by
    have : (0 : ℚ) < num := hnumq ▸ mul_pos htwo hdenq
    exact_mod_cast this
  have hlead := lt_leading (Nat.mul_pos hn hnum) hden
  push_cast at hlead
  rw [hnumq, mul_comm (den : ℚ), ← mul_assoc] at hlead
  exact lt_of_mul_lt_mul_right hlead hdenq.le

/-- The shortest decimal of a number lies within half a unit of it, and has few digits. -/
theorem near_shortest (tie : Tie) (hm : 0 < mantissa) (exponent : Int) :
    Near mantissa exponent (shortest tie mantissa exponent) := by
  have hhigh : ((Interval.around mantissa exponent).high : ℚ) = 4 * mantissa + 2 := by
    unfold Interval.around
    push_cast
    rfl
  have hlow : (2 : ℚ) ≤ (Interval.around mantissa exponent).low := by
    exact_mod_cast two_le_low_around hm
  have hlead := lt_leading_powerQuotient (Nat.mul_pos (by decide : 0 < 4) hm) (exponent - 2)
  unfold shortest
  rw [if_neg (by omega)]
  dsimp only
  rw [show (Interval.around mantissa exponent).mid = 4 * mantissa from rfl]
  generalize leading (4 * mantissa * (powerQuotient (exponent - 2) 0).1)
    (powerQuotient (exponent - 2) 0).2 = lead at hlead ⊢
  cases hs : search tie (Interval.around mantissa exponent) (exponent - 2) lead 18 0 with
  | none =>
    have htrim : trim ⟨0, 0⟩ 20 = ⟨0, 0⟩ := rfl
    have hzero : size ⟨0, 0⟩ = 0 := by simp [size]
    rw [Option.getD_none, htrim]
    exact ⟨.inl rfl, by rw [hzero]; positivity, Nat.zero_le _⟩
  | some d =>
    obtain ⟨hle, hsize⟩ := size_trim d 20
    obtain ⟨k, hk, hd⟩ := exists_onGrid_of_search hs
    obtain ⟨hstep, habove, hbelow⟩ := size_of_onGrid hd
    rw [hhigh] at hbelow
    push_cast at hlead
    have hm1 : (1 : ℚ) ≤ mantissa := by exact_mod_cast hm
    have htwo : (0 : ℚ) < 2 ^ (exponent - 2) := by positivity
    rw [Option.getD_some]
    refine ⟨.inr ?_, hsize ▸ hbelow, Nat.le_trans hle (digits_le (by omega) hstep ?_)⟩
    · rw [hsize]
      calc (2 : ℚ) ^ (exponent - 1) = 2 * 2 ^ (exponent - 2) := by
            rw [show exponent - 1 = exponent - 2 + 1 by ring, zpow_add_one₀ (by norm_num), mul_comm]
        _ ≤ (Interval.around mantissa exponent).low * 2 ^ (exponent - 2) := by gcongr
        _ ≤ d.size := habove
    -- the upper end is at most one and a half times the number
    · calc d.size ≤ (4 * mantissa + 2) * 2 ^ (exponent - 2) := hbelow
        _ ≤ 3 / 2 * (4 * mantissa * 2 ^ (exponent - 2)) := by nlinarith
        _ < 3 / 2 * 10 ^ (lead + 1) := by linarith

end BlockProgram.Decimal
