import BlockProgram.Number.Binary64
import Mathlib.Algebra.Order.Field.Power
import Mathlib.Data.Rat.Cast.Order
import Mathlib.Tactic.FieldSimp
import Mathlib.Tactic.Linarith
import Mathlib.Tactic.NormNum
import Mathlib.Tactic.Positivity
import Mathlib.Tactic.Ring

/-! How far rounding to a binary64 number goes. A quotient that is at least one grows by no more than one
part in `2 ^ 53`, and it becomes infinite only from half a unit above the largest number on. -/
namespace BlockProgram.Binary64

variable {negative : Bool} {num den m : Nat} {q : Int} {x y : Binary64}

def size (x : Binary64) : ℚ :=
  match x.value with
  | .finite _ m e => m * 2 ^ e
  | _ => 0

theorem size_nonneg (x : Binary64) : 0 ≤ x.size := by
  unfold size
  split
  · positivity
  · exact le_refl 0

/-- What rounds to infinity, and everything below does not. -/
def limit : ℚ := (2 ^ 54 - 1) * 2 ^ 970

/-- A finite number is an integer below `2 ^ 53` times a power of two within the range. -/
theorem value_of_isFinite (h : x.isFinite) :
    ∃ negative m e, x.value = .finite negative m e ∧ m < 2 ^ 53 ∧ -1074 ≤ e ∧ e ≤ 971 := by
  have hbiased : x.biased ≠ 2047 := by simpa [isFinite] using h
  have hexponent : x.biased < Nat.pow 2 11 := Nat.mod_lt _ (by decide)
  have hfraction : x.fraction < Nat.pow 2 52 := Nat.mod_lt _ (by decide)
  unfold value
  rw [if_neg hbiased]
  simp only [Nat.pow_eq] at hexponent hfraction ⊢
  split
  · exact ⟨_, _, _, rfl, by omega, by omega, by omega⟩
  · exact ⟨_, _, _, rfl, by omega, by omega, by omega⟩

theorem value_of_not_isFinite (h : x.isFinite = false) : ∀ negative m e, x.value ≠ .finite negative m e := by
  have hbiased : x.biased = 2047 := by simpa [isFinite] using h
  intro negative m e
  unfold value
  rw [if_pos hbiased]
  split <;> nofun

theorem ratio?_eq (h : x.isFinite) :
    ∃ a b : Nat, x.ratio? = some (a, b) ∧ 0 < b ∧ (a : ℚ) / b = x.size := by
  obtain ⟨negative, m, e, hv, -⟩ := value_of_isFinite h
  unfold ratio? size
  rw [hv]
  dsimp only
  split
  · rename_i he
    obtain ⟨n, hn⟩ := Int.eq_ofNat_of_zero_le (show 0 ≤ -e by omega)
    refine ⟨_, _, rfl, Nat.pow_pos (by decide), ?_⟩
    rw [hn, show e = -(n : Int) by omega]
    simp [div_eq_mul_inv]
  · rename_i he
    obtain ⟨n, rfl⟩ := Int.eq_ofNat_of_zero_le (show 0 ≤ e by omega)
    exact ⟨_, _, rfl, by decide, by simp⟩

private theorem roundHalfEven_le (num : Nat) (hden : 0 < den) :
    (roundHalfEven num den : ℚ) ≤ num / den + 1 / 2 := by
  have hsplit : den * (num / den) + num % den = num := Nat.div_add_mod num den
  have hle : 2 * den * roundHalfEven num den ≤ 2 * num + den := by
    unfold roundHalfEven
    generalize num / den = k at hsplit ⊢
    generalize num % den = r at hsplit ⊢
    subst hsplit
    dsimp only
    split
    · nlinarith
    · split
      · nlinarith
      · split <;> nlinarith
  have hdenq : (0 : ℚ) < den := by exact_mod_cast hden
  have hleq : 2 * (den : ℚ) * roundHalfEven num den ≤ 2 * num + den := by exact_mod_cast hle
  have hmul : ((num : ℚ) / den + 1 / 2) * den = num + den / 2 := by field_simp
  nlinarith

private theorem div_le_roundHalfEven : num / den ≤ roundHalfEven num den := by
  unfold roundHalfEven
  dsimp only
  split
  · exact Nat.le_refl _
  · split
    · exact Nat.le_succ _
    · split
      · exact Nat.le_refl _
      · exact Nat.le_succ _

private theorem lt_iff_div_lt (num : Nat) (hden : 0 < den) (guess : Int) :
    (if guess < 0 then num * Nat.pow 2 (-guess).toNat < den * Nat.pow 2 52
      else num < den * Nat.pow 2 (guess.toNat + 52)) ↔ (num : ℚ) / den < 2 ^ (guess + 52) := by
  have hdenq : (0 : ℚ) < den := by exact_mod_cast hden
  have hcast (a b : Nat) : a < b ↔ (a : ℚ) < b := Nat.cast_lt.symm
  rw [div_lt_iff₀ hdenq, zpow_add₀ (by norm_num)]
  split
  · rename_i hneg
    obtain ⟨n, hn⟩ := Int.eq_ofNat_of_zero_le (show 0 ≤ -guess by omega)
    have hpow : (0 : ℚ) < 2 ^ n := by positivity
    have hscaled : (2 : ℚ) ^ (-(n : Int)) * 2 ^ (52 : Int) * den * 2 ^ n = den * 2 ^ 52 := by
      rw [zpow_neg, zpow_natCast]
      field_simp
    have hmul := mul_lt_mul_iff_left₀ hpow (b := (num : ℚ))
      (c := (2 : ℚ) ^ (-(n : Int)) * 2 ^ (52 : Int) * den)
    rw [hn, show guess = -(n : Int) by omega, hcast, Int.toNat_natCast, ← hmul, hscaled]
    simp only [Nat.pow_eq, Nat.cast_mul, Nat.cast_pow, Nat.cast_ofNat]
  · rename_i hpos
    obtain ⟨n, rfl⟩ := Int.eq_ofNat_of_zero_le (show 0 ≤ guess by omega)
    rw [hcast, Int.toNat_natCast]
    simp only [Nat.pow_eq, Nat.cast_mul, Nat.cast_pow, Nat.cast_ofNat]
    rw [pow_add, zpow_natCast, mul_comm (den : ℚ)]
    norm_cast

/-- The bounds of a quotient by the number of bits of its parts. -/
theorem between_logs (hnum : 0 < num) (hden : 0 < den) :
    2 ^ ((num.log2 : Int) - den.log2 - 1) < (num : ℚ) / den ∧
      (num : ℚ) / den < 2 ^ ((num.log2 : Int) - den.log2 + 1) := by
  have hdenq : (0 : ℚ) < den := by exact_mod_cast hden
  have h1 : (2 : ℚ) ^ num.log2 ≤ num := by exact_mod_cast Nat.log2_self_le (by omega)
  have h2 : (num : ℚ) < 2 ^ (num.log2 + 1) := by exact_mod_cast Nat.lt_log2_self
  have h3 : (2 : ℚ) ^ den.log2 ≤ den := by exact_mod_cast Nat.log2_self_le (by omega)
  have h4 : (den : ℚ) < 2 ^ (den.log2 + 1) := by exact_mod_cast Nat.lt_log2_self
  rw [lt_div_iff₀ hdenq, div_lt_iff₀ hdenq]
  constructor
  · calc (2 : ℚ) ^ ((num.log2 : Int) - den.log2 - 1) * den
        < 2 ^ ((num.log2 : Int) - den.log2 - 1) * 2 ^ (den.log2 + 1) := by gcongr
      _ = 2 ^ num.log2 := by
        rw [← zpow_natCast, ← zpow_natCast, ← zpow_add₀ (by norm_num)]
        congr 1
        push_cast
        ring
      _ ≤ num := h1
  · calc (num : ℚ) < 2 ^ (num.log2 + 1) := h2
      _ = 2 ^ ((num.log2 : Int) - den.log2 + 1) * 2 ^ den.log2 := by
        rw [← zpow_natCast, ← zpow_natCast, ← zpow_add₀ (by norm_num)]
        congr 1
        push_cast
        ring
      _ ≤ 2 ^ ((num.log2 : Int) - den.log2 + 1) * den := by gcongr

/-- A quotient over its unit is below `2 ^ 53`, and at least `2 ^ 52` unless the unit is the least
one. -/
theorem unitExponent_spec (hnum : 0 < num) (hden : 0 < den) :
    -1074 ≤ unitExponent num den ∧ (num : ℚ) / den < 2 ^ (unitExponent num den + 53) ∧
      (unitExponent num den = -1074 ∨ 2 ^ (unitExponent num den + 52) ≤ (num : ℚ) / den) := by
  obtain ⟨hlow, hhigh⟩ := between_logs hnum hden
  have hexact : ∃ q : Int, unitExponent num den = max q (-1074) ∧
      (num : ℚ) / den < 2 ^ (q + 53) ∧ 2 ^ (q + 52) ≤ (num : ℚ) / den := by
    have hshort := lt_iff_div_lt num hden ((num.log2 : Int) - den.log2 - 52)
    refine ⟨_, rfl, ?_⟩
    rw [show (num.log2 : Int) - den.log2 - 1 = (num.log2 : Int) - den.log2 - 52 + 51 by omega] at hlow
    rw [show (num.log2 : Int) - den.log2 + 1 = (num.log2 : Int) - den.log2 - 52 + 53 by omega] at hhigh
    generalize (num.log2 : Int) - den.log2 - 52 = guess at hlow hhigh hshort ⊢
    by_cases hlt : (num : ℚ) / den < 2 ^ (guess + 52)
    · rw [if_pos (hshort.mpr hlt), show guess - 1 + 53 = guess + 52 by omega,
        show guess - 1 + 52 = guess + 51 by omega]
      exact ⟨hlt, hlow.le⟩
    · rw [if_neg fun h => hlt (hshort.mp h)]
      exact ⟨hhigh, not_lt.mp hlt⟩
  obtain ⟨q, hq, hlt, hle⟩ := hexact
  rw [hq]
  refine ⟨le_max_right _ _, lt_of_lt_of_le hlt ?_, ?_⟩
  · exact zpow_le_zpow_right₀ (by norm_num) (by omega)
  · rcases le_total q (-1074) with h | h
    · exact .inl (max_eq_right h)
    · exact .inr (by rwa [max_eq_left h])

private theorem fields_ofMagnitude {magnitude : Nat} (negative : Bool) (h : magnitude < 2 ^ 63) :
    (ofMagnitude negative magnitude).biased = magnitude / 2 ^ 52 ∧
      (ofMagnitude negative magnitude).fraction = magnitude % 2 ^ 52 := by
  have hbits : (ofMagnitude negative magnitude).bits.toNat =
      if negative then 2 ^ 63 + magnitude else magnitude := by
    unfold ofMagnitude
    dsimp only
    rw [UInt64.toNat_ofNat']
    simp only [Nat.pow_eq]
    cases negative <;> simp only [Bool.false_eq_true, ↓reduceIte] <;> omega
  unfold biased fraction
  rw [hbits]
  simp only [Nat.pow_eq]
  cases negative <;> simp only [Bool.false_eq_true, ↓reduceIte, and_true] <;> omega

/-- No magnitude below infinity is infinite or no number. -/
theorem isFinite_ofMagnitude {magnitude : Nat} (negative : Bool) (h : magnitude < infinityBits) :
    (ofMagnitude negative magnitude).isFinite := by
  unfold infinityBits at h
  simp only [Nat.pow_eq] at h
  obtain ⟨hbiased, -⟩ := fields_ofMagnitude negative (show magnitude < 2 ^ 63 by omega)
  unfold isFinite
  rw [hbiased, decide_eq_true_eq]
  omega

/-- A mantissa of 53 bits, or the next power of two, over a unit. -/
theorem size_ofMagnitude (negative : Bool) (hq : -1074 ≤ q) (hm : 2 ^ 52 ≤ m) (hm' : m ≤ 2 ^ 53)
    (h : (q + 1074).toNat * 2 ^ 52 + m < infinityBits) :
    (ofMagnitude negative ((q + 1074).toNat * 2 ^ 52 + m)).size = m * 2 ^ q := by
  unfold infinityBits at h
  simp only [Nat.pow_eq] at h
  obtain ⟨hbiased, hfraction⟩ := fields_ofMagnitude negative
    (show (q + 1074).toNat * 2 ^ 52 + m < 2 ^ 63 by omega)
  unfold size value
  rw [hbiased, hfraction, if_neg (by omega), if_neg (by omega)]
  simp only [Nat.pow_eq]
  rcases Nat.lt_or_eq_of_le hm' with hlt | rfl
  · rw [show 2 ^ 52 + ((q + 1074).toNat * 2 ^ 52 + m) % 2 ^ 52 = m by omega,
      show ((((q + 1074).toNat * 2 ^ 52 + m) / 2 ^ 52 : Nat) : Int) - 1075 = q by omega]
  · rw [show 2 ^ 52 + ((q + 1074).toNat * 2 ^ 52 + 2 ^ 53) % 2 ^ 52 = 2 ^ 52 by omega,
      show ((((q + 1074).toNat * 2 ^ 52 + 2 ^ 53) / 2 ^ 52 : Nat) : Int) - 1075 = q + 1 by omega,
      zpow_add_one₀ (by norm_num)]
    push_cast
    ring

/-- What is rounded to an integer: the quotient over its unit. -/
theorem exists_units (num : Nat) (hden : 0 < den) (q : Int) :
    ∃ a b : Nat, 0 < b ∧ (a : ℚ) / b = num / den / 2 ^ q ∧
      (if q < 0 then roundHalfEven (num * Nat.pow 2 (-q).toNat) den
        else roundHalfEven num (den * Nat.pow 2 q.toNat)) = roundHalfEven a b := by
  split
  · rename_i hneg
    obtain ⟨n, hn⟩ := Int.eq_ofNat_of_zero_le (show 0 ≤ -q by omega)
    refine ⟨_, _, hden, ?_, rfl⟩
    rw [hn, show q = -(n : Int) by omega]
    simp [mul_div_right_comm]
  · rename_i hpos
    obtain ⟨n, rfl⟩ := Int.eq_ofNat_of_zero_le (show 0 ≤ q by omega)
    refine ⟨_, _, Nat.mul_pos hden (Nat.pow_pos (by decide)), ?_, rfl⟩
    simp [div_div]

private theorem limit_eq : limit = (2 ^ 53 - 1 / 2) * 2 ^ (971 : Int) := by
  rw [limit, show (971 : Int) = ((970 + 1 : Nat) : Int) from rfl, zpow_natCast, pow_succ (2 : ℚ) 970]
  generalize (2 : ℚ) ^ 970 = unit
  ring

private theorem le_of_lt_limit {x : ℚ} (hlow : q = -1074 ∨ 2 ^ (q + 52) ≤ x) (hx : x < limit) :
    q ≤ 971 := by
  rcases hlow with rfl | hlow
  · decide
  · have hlimit : limit < 2 ^ (971 + 53 : Int) := by
      rw [limit_eq, zpow_add₀ (by norm_num), mul_comm]
      exact mul_lt_mul_of_pos_left (by norm_num) (by positivity)
    have hlt : (2 : ℚ) ^ (q + 52) < 2 ^ (971 + 53 : Int) := hlow.trans_lt (hx.trans hlimit)
    have := (zpow_lt_zpow_iff_right₀ (by norm_num : (1 : ℚ) < 2)).mp hlt
    omega

/-- The unit and the mantissa of a quotient below the limit. -/
theorem exists_rounding (negative : Bool) (hnum : 0 < num) (hden : 0 < den)
    (hlimit : (num : ℚ) / den < limit) :
    ∃ (q : Int) (m : Nat), -1074 ≤ q ∧ (num : ℚ) / den < 2 ^ (q + 53) ∧
      m ≤ 2 ^ 53 ∧ (m : ℚ) ≤ num / den / 2 ^ q + 1 / 2 ∧
      (q = -1074 ∨ 2 ^ 52 ≤ m ∧ 2 ^ 52 ≤ (num : ℚ) / den / 2 ^ q) ∧
      (q + 1074).toNat * 2 ^ 52 + m < infinityBits ∧
      ofRatio negative num den = ofMagnitude negative ((q + 1074).toNat * 2 ^ 52 + m) := by
  obtain ⟨hq, hhigh, hlow⟩ := unitExponent_spec hnum hden
  unfold ofRatio
  rw [if_neg (by omega)]
  dsimp only
  generalize unitExponent num den = q at hq hhigh hlow ⊢
  obtain ⟨a, b, hb, hab, hround⟩ := exists_units num hden q
  rw [hround]
  have hbq : (0 : ℚ) < b := by exact_mod_cast hb
  have hunit : (0 : ℚ) < 2 ^ q := by positivity
  have hle := roundHalfEven_le a hb
  rw [hab] at hle
  have hscaled : (num : ℚ) / den / 2 ^ q < 2 ^ 53 := by
    rw [div_lt_iff₀ hunit, mul_comm]
    rwa [zpow_add₀ (by norm_num)] at hhigh
  have hm : roundHalfEven a b ≤ 2 ^ 53 := by
    have : (roundHalfEven a b : ℚ) < (2 ^ 53 + 1 : Nat) := by push_cast; linarith
    exact Nat.le_of_lt_succ (by exact_mod_cast this)
  have hnormal : q = -1074 ∨ 2 ^ 52 ≤ roundHalfEven a b ∧ 2 ^ 52 ≤ (num : ℚ) / den / 2 ^ q := by
    refine hlow.imp_right fun hlow => ?_
    have hlow' : 2 ^ 52 ≤ (num : ℚ) / den / 2 ^ q := by
      rw [le_div_iff₀ hunit, mul_comm]
      rwa [zpow_add₀ (by norm_num)] at hlow
    refine ⟨Nat.le_trans ?_ div_le_roundHalfEven, hlow'⟩
    rw [← hab, le_div_iff₀ hbq] at hlow'
    exact (Nat.le_div_iff_mul_le hb).mpr (by exact_mod_cast hlow')
  have hbits : (q + 1074).toNat * 2 ^ 52 + roundHalfEven a b < infinityBits := by
    unfold infinityBits
    simp only [Nat.pow_eq]
    rcases Int.lt_or_le q 971 with hlt | hge
    · omega
    · have htop : q = 971 := le_antisymm (le_of_lt_limit hlow hlimit) hge
      have hlast : (num : ℚ) / den / 2 ^ q < 2 ^ 53 - 1 / 2 := by
        rw [div_lt_iff₀ hunit, htop, ← limit_eq]
        exact hlimit
      have hfits : (roundHalfEven a b : ℚ) < (2 ^ 53 : Nat) := by push_cast; linarith
      have hfits : roundHalfEven a b < 2 ^ 53 := by exact_mod_cast hfits
      omega
  refine ⟨q, roundHalfEven a b, hq, hhigh, hm, hle, hnormal, hbits, ?_⟩
  simp only [Nat.pow_eq]
  rw [Nat.min_eq_left hbits.le]

/-- A quotient below the limit does not become infinite. -/
theorem isFinite_ofRatio (negative : Bool) (hden : 0 < den) (hlimit : (num : ℚ) / den < limit) :
    (ofRatio negative num den).isFinite := by
  rcases Nat.eq_zero_or_pos num with rfl | hnum
  · exact isFinite_ofMagnitude negative (by decide)
  · obtain ⟨q, m, -, -, -, -, -, hlt, he⟩ := exists_rounding negative hnum hden hlimit
    exact he ▸ isFinite_ofMagnitude negative hlt

/-- A quotient that is at least one grows by one part in `2 ^ 53` at most. -/
theorem size_ofRatio_le (negative : Bool) (hden : 0 < den) (hone : 1 ≤ (num : ℚ) / den)
    (hlimit : (num : ℚ) / den < limit) :
    (ofRatio negative num den).size ≤ num / den * (1 + 1 / 2 ^ 53) := by
  have hnum : 0 < num := by
    refine Nat.pos_of_ne_zero fun h0 => ?_
    rw [h0, Nat.cast_zero, zero_div] at hone
    linarith
  obtain ⟨q, m, hq, hhigh, hm, hle, hnormal, hbits, he⟩ := exists_rounding negative hnum hden hlimit
  have hunit : (0 : ℚ) < 2 ^ q := by positivity
  have hlow : 2 ^ 52 ≤ m ∧ 2 ^ 52 ≤ (num : ℚ) / den / 2 ^ q := by
    refine hnormal.resolve_left fun hsub => ?_
    have hlt : (2 : ℚ) ^ (0 : Int) < 2 ^ (q + 53) := by
      rw [zpow_zero]
      exact hone.trans_lt hhigh
    have := (zpow_lt_zpow_iff_right₀ (by norm_num : (1 : ℚ) < 2)).mp hlt
    omega
  rw [he, size_ofMagnitude negative hq hlow.1 hm hbits]
  calc (m : ℚ) * 2 ^ q ≤ (num / den / 2 ^ q + 1 / 2) * 2 ^ q := by gcongr
    _ ≤ (num / den / 2 ^ q * (1 + 1 / 2 ^ 53)) * 2 ^ q := by
      have := hlow.2
      gcongr
      linarith
    _ = num / den * (1 + 1 / 2 ^ 53) := by field_simp

end BlockProgram.Binary64
