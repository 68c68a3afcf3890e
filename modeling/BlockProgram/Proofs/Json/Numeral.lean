import BlockProgram.Proofs.Json.Outcome
import BlockProgram.Proofs.Json.Scaled

/-! Numbers as they are written and read back. What is read from the text of a finite number is the
shortest decimal of it, and an infinity or NaN, which is written `null`, is not read at all. -/
namespace BlockProgram.Json

open Reader

variable {rest ds fs gap : List Char} {m : Nat} {e : Int} {d : Decimal} {negative : Bool}

private theorem outcome_floatOf (negative : Bool) (m : Nat) (e : Int) (s : List Char) :
    outcome (floatOf negative m e) s =
      (scaled 4 (.ofNat m) e).map fun x => (.float (if negative then x.negate else x), s) := by
  unfold floatOf
  cases scaled 4 (.ofNat m) e <;> rfl

private theorem outcome_afterSignificand (hr : Ended rest) :
    outcome (afterSignificand negative m e) rest = outcome (floatOf negative m e) rest := by
  cases rest with
  | nil => rfl
  | cons c rest => rcases hr c rfl with rfl | rfl <;> rfl

private theorem outcome_afterSignificand_exponent :
    outcome (afterSignificand negative m e) ('e' :: rest) =
      outcome (exponentPart negative m e) rest := by
  simp [afterSignificand]

/-- The digits on both sides of the point make one significand. -/
theorem outcome_finish_point (hf : ∀ c ∈ fs, c.isDigit) (hne : fs ≠ [])
    (hlt : Nat.ofDigitChars 10 (ds ++ fs) 0 < Nat.pow 2 64) (hr : DigitsEnd rest) :
    outcome (unsignedNumber.finish negative ds '.') ('.' :: (fs ++ rest)) =
      outcome (afterSignificand negative (Nat.ofDigitChars 10 (ds ++ fs) 0) (-fs.length)) rest := by
  rw [Nat.ofDigitChars_append] at hlt ⊢
  have hwhole : accumulate 0 ds = (Nat.ofDigitChars 10 ds 0, []) :=
    accumulate_digits (Nat.lt_of_le_of_lt (le_ofDigitChars fs _) hlt)
  have hdigits := outcome_digits hf hr
  simp [unsignedNumber.finish, hwhole, fractionPart, hdigits, hne, accumulate_digits hlt]

private theorem outcome_finish_exponent (hlt : Nat.ofDigitChars 10 ds 0 < Nat.pow 2 64) :
    outcome (unsignedNumber.finish negative ds 'e') ('e' :: rest) =
      outcome (exponentPart negative (Nat.ofDigitChars 10 ds 0) 0) rest := by
  simp [unsignedNumber.finish, accumulate_digits hlt]

private theorem exponentFrom_digits {n : Nat} (hd : ∀ c ∈ ds, c.isDigit)
    (hle : Nat.ofDigitChars 10 ds n ≤ maxExponent) (hr : DigitsEnd rest) :
    exponentFrom n (ds ++ rest) = (some (Nat.ofDigitChars 10 ds n), rest) := by
  induction ds generalizing n with
  | nil =>
    cases rest with
    | nil => rfl
    | cons c rest =>
      have hc : c.isDigit = false := hr c rfl
      simp [exponentFrom, hc]
  | cons c ds ih =>
    obtain ⟨hc, hds⟩ := List.forall_mem_cons.mp hd
    rw [Nat.ofDigitChars_cons] at hle ⊢
    have hfits : 10 * n + digitValue c ≤ maxExponent := Nat.le_trans (le_ofDigitChars ds _) hle
    rw [List.cons_append, exponentFrom, if_pos hc]
    dsimp only
    rw [if_pos hfits]
    exact ih hds hle

private theorem outcome_exponentPart (negative : Bool) (m : Nat) (e : Int) {x : Int} (hx : x.natAbs ≤ maxExponent) (hr : Ended rest) :
    outcome (exponentPart negative m e)
        ((if x < 0 then '-' else '+') :: (Nat.toDigits 10 x.natAbs ++ rest)) =
      outcome (floatOf negative m (clampExponent (e + x))) rest := by
  have hvalue : Nat.ofDigitChars 10 (Nat.toDigits 10 x.natAbs) 0 = x.natAbs :=
    Nat.ofDigitChars_ten_toDigits
  have hdigits (c : Char) (hc : c ∈ Nat.toDigits 10 x.natAbs) : c.isDigit := isDigit_of_mem_toDigits hc
  have hread := exponentFrom_digits hdigits (hvalue ▸ hx) hr.digitsEnd
  rw [hvalue] at hread
  obtain ⟨c, cs, hcs⟩ := List.exists_cons_of_ne_nil (Nat.toDigits_ne_nil (b := 10) (n := x.natAbs))
  rw [hcs, List.cons_append] at hread
  have hc : c.isDigit = true := hdigits c (hcs ▸ List.mem_cons_self)
  rw [hcs, List.cons_append]
  by_cases hneg : x < 0
  · rw [if_pos hneg, show e + x = e - (x.natAbs : Int) by omega]
    simp [exponentPart, hc, hread]
  · rw [if_neg hneg, show e + x = e + (x.natAbs : Int) by omega]
    simp [exponentPart, hc, hread]

def documentForm (d : Decimal) : List Char :=
  if -5 ≤ d.scientific ∧ d.scientific < 16 then
    d.positional ++ (if 0 ≤ d.exponent then ".0".toList else [])
  else d.exponential

/-- The significand and the exponent that are read from that form. -/
def readForm (d : Decimal) : Nat × Int :=
  if -5 ≤ d.scientific ∧ d.scientific < 16 ∧ 0 ≤ d.exponent then
    (d.digits * 10 ^ (d.exponent.toNat + 1), -1)
  else (d.digits, d.exponent)

/-- A decimal of a binary64 number. -/
structure Legible (d : Decimal) : Prop where
  zero : d.digits = 0 → d.exponent = 0
  digits : d.digits ≤ 15 * 10 ^ 17
  low : -2000 ≤ d.exponent
  high : d.exponent ≤ 2000

private theorem signed_append (negative : Bool) (ds tail rest : List Char) :
    (if negative then '-' :: (ds ++ tail) else ds ++ tail) ++ rest =
      (if negative then '-' :: ds else ds) ++ (tail ++ rest) := by
  cases negative <;> simp

private theorem signed_point (negative : Bool) (c : Char) (fs tail rest : List Char) :
    (if negative then '-' :: (c :: '.' :: fs ++ tail) else c :: '.' :: fs ++ tail) ++ rest =
      (if negative then '-' :: [c] else [c]) ++ '.' :: (fs ++ (tail ++ rest)) := by
  cases negative <;> simp

section numeral

variable (expected : String) (negative : Bool) (hg : Gap gap) (hw : Whole ds)
include hg hw

/-- Digits on both sides of a point. -/
theorem outcome_point (hf : ∀ c ∈ fs, c.isDigit) (hne : fs ≠ [])
    (hlt : Nat.ofDigitChars 10 (ds ++ fs) 0 < Nat.pow 2 64) (hr : DigitsEnd rest) :
    outcome (Reader.numeral expected)
        (gap ++ ((if negative then '-' :: ds else ds) ++ '.' :: (fs ++ rest))) =
      outcome (afterSignificand negative (Nat.ofDigitChars 10 (ds ++ fs) 0) (-fs.length)) rest := by
  have hpoint : DigitsEnd ('.' :: (fs ++ rest)) := fun c hc => Option.some.inj hc ▸ rfl
  rw [outcome_numeral expected negative hg hw hpoint]
  exact outcome_finish_point hf hne hlt hr

/-- Digits, and an exponent right after them. -/
theorem outcome_exponent (hlt : Nat.ofDigitChars 10 ds 0 < Nat.pow 2 64) (rest : List Char) :
    outcome (Reader.numeral expected) (gap ++ ((if negative then '-' :: ds else ds) ++ 'e' :: rest)) =
      outcome (exponentPart negative (Nat.ofDigitChars 10 ds 0) 0) rest := by
  have hmark : DigitsEnd ('e' :: rest) := fun c hc => Option.some.inj hc ▸ rfl
  rw [outcome_numeral expected negative hg hw hmark]
  exact outcome_finish_exponent hlt

end numeral

private theorem ofDigitChars_figures (d : Decimal) : Nat.ofDigitChars 10 d.figures 0 = d.digits :=
  Nat.ofDigitChars_ten_toDigits

private theorem figures_ne_nil (d : Decimal) : d.figures ≠ [] := Nat.toDigits_ne_nil

private theorem isDigit_of_mem_figures {c : Char} (hc : c ∈ d.figures) : c.isDigit :=
  isDigit_of_mem_toDigits hc

private theorem digits_lt (hd : Legible d) : d.digits < Nat.pow 2 64 := by
  have hdigits := hd.digits
  simp only [Nat.pow_eq]
  omega

/-- All digits in place, and a zero behind the point. -/
theorem outcome_integerForm (expected : String) (negative : Bool) (hd : Legible d)
    (hg : Gap gap) (hr : Ended rest) (hx : d.scientific < 16) (he : 0 ≤ d.exponent) :
    outcome (Reader.numeral expected)
        (gap ++ ((if negative then '-' :: (d.positional ++ ".0".toList)
          else d.positional ++ ".0".toList) ++ rest)) =
      outcome (floatOf negative (d.digits * 10 ^ (d.exponent.toNat + 1)) (-1)) rest := by
  have hpositional : d.positional = d.figures ++ List.replicate d.exponent.toNat '0' := by
    unfold Decimal.positional
    rw [if_pos he]
  have hwhole : Whole (d.figures ++ List.replicate d.exponent.toNat '0') := by
    refine ⟨fun c hc => ?_, List.append_ne_nil_of_left_ne_nil (figures_ne_nil d) _, fun hzero => ?_⟩
    · rcases List.mem_append.mp hc with hc | hc
      · exact isDigit_of_mem_figures hc
      · exact isDigit_of_mem_zeros hc
    · rw [List.head?_append_of_ne_nil _ (figures_ne_nil d)] at hzero
      have hdigits : d.digits = 0 := head?_toDigits hzero
      rw [hd.zero hdigits]
      simp [Decimal.figures, hdigits]
  have hvalue : Nat.ofDigitChars 10 (d.figures ++ List.replicate d.exponent.toNat '0' ++ ['0']) 0 =
      d.digits * 10 ^ (d.exponent.toNat + 1) := by
    have hlast : ['0'] = List.replicate 1 '0' := rfl
    rw [Nat.ofDigitChars_append, Nat.ofDigitChars_append, ofDigitChars_figures, hlast,
      Nat.ofDigitChars_replicate_zero, Nat.ofDigitChars_replicate_zero]
    ring
  have hlt : d.digits * 10 ^ (d.exponent.toNat + 1) < Nat.pow 2 64 := by
    have hfigures : d.digits < 10 ^ d.figures.length :=
      (Nat.length_toDigits_le_iff (by decide) Nat.length_toDigits_pos).mp (Nat.le_refl _)
    have hlength : d.figures.length + (d.exponent.toNat + 1) ≤ 17 := by
      unfold Decimal.scientific at hx
      omega
    calc d.digits * 10 ^ (d.exponent.toNat + 1)
        ≤ 10 ^ d.figures.length * 10 ^ (d.exponent.toNat + 1) := Nat.mul_le_mul_right _ hfigures.le
      _ = 10 ^ (d.figures.length + (d.exponent.toNat + 1)) := (Nat.pow_add ..).symm
      _ ≤ 10 ^ 17 := Nat.pow_le_pow_right (by decide) hlength
      _ < Nat.pow 2 64 := by decide
  have hzeros : ∀ c ∈ ['0'], c.isDigit := by simp
  rw [signed_append, hpositional]
  have hread := outcome_point expected negative hg hwhole hzeros (by simp) (hvalue ▸ hlt) hr.digitsEnd
  rw [hvalue, outcome_afterSignificand hr] at hread
  exact hread

/-- The point stands among the digits. -/
theorem outcome_pointWithin (expected : String) (negative : Bool) (hd : Legible d)
    (hg : Gap gap) (hr : Ended rest) {places : Nat} (he : d.exponent = -(places : Int))
    (hpos : 0 < places) (hlt : places < d.figures.length) :
    outcome (Reader.numeral expected)
        (gap ++ ((if negative then '-' :: (d.figures.take (d.figures.length - places) ++
            '.' :: d.figures.drop (d.figures.length - places))
          else d.figures.take (d.figures.length - places) ++
            '.' :: d.figures.drop (d.figures.length - places)) ++ rest)) =
      outcome (floatOf negative d.digits d.exponent) rest := by
  have htake : d.figures.take (d.figures.length - places) ≠ [] := by
    rw [ne_eq, List.take_eq_nil_iff, not_or]
    exact ⟨by omega, figures_ne_nil d⟩
  have hwhole : Whole (d.figures.take (d.figures.length - places)) := by
    refine ⟨fun c hc => isDigit_of_mem_figures (List.mem_of_mem_take hc), htake, fun hzero => ?_⟩
    rw [List.head?_take, if_neg (by omega)] at hzero
    have := hd.zero (head?_toDigits hzero)
    omega
  have hf (c : Char) (hc : c ∈ d.figures.drop (d.figures.length - places)) : c.isDigit :=
    isDigit_of_mem_figures (List.mem_of_mem_drop hc)
  have hvalue : Nat.ofDigitChars 10 (d.figures.take (d.figures.length - places) ++
      d.figures.drop (d.figures.length - places)) 0 = d.digits := by
    rw [List.take_append_drop, ofDigitChars_figures]
  have hread := outcome_point expected negative hg hwhole hf (by simp; omega)
    (hvalue ▸ digits_lt hd) hr.digitsEnd
  rw [hvalue, outcome_afterSignificand hr, List.length_drop,
    show d.figures.length - (d.figures.length - places) = places by omega, ← he] at hread
  rw [signed_append]
  exact hread

/-- All digits stand behind the point, zeros before them. -/
theorem outcome_pointBefore (expected : String) (negative : Bool) (hd : Legible d)
    (hg : Gap gap) (hr : Ended rest) {places : Nat} (he : d.exponent = -(places : Int))
    (hle : d.figures.length ≤ places) :
    outcome (Reader.numeral expected)
        (gap ++ ((if negative then
            '-' :: '0' :: '.' :: (List.replicate (places - d.figures.length) '0' ++ d.figures)
          else '0' :: '.' :: (List.replicate (places - d.figures.length) '0' ++ d.figures)) ++
          rest)) =
      outcome (floatOf negative d.digits d.exponent) rest := by
  have hzero : Whole ['0'] := ⟨by simp, by simp, fun _ => rfl⟩
  have hf (c : Char) (hc : c ∈ List.replicate (places - d.figures.length) '0' ++ d.figures) :
      c.isDigit := by
    rcases List.mem_append.mp hc with hc | hc
    · exact isDigit_of_mem_zeros hc
    · exact isDigit_of_mem_figures hc
  have hvalue : Nat.ofDigitChars 10
      (['0'] ++ (List.replicate (places - d.figures.length) '0' ++ d.figures)) 0 = d.digits := by
    have hnone : Nat.ofDigitChars 10 ['0'] 0 = 0 := by decide
    rw [Nat.ofDigitChars_append, Nat.ofDigitChars_append, hnone, Nat.ofDigitChars_replicate_zero,
      Nat.mul_zero, ofDigitChars_figures]
  have hread := outcome_point expected negative hg hzero hf
    (List.append_ne_nil_of_right_ne_nil _ (figures_ne_nil d)) (hvalue ▸ digits_lt hd) hr.digitsEnd
  rw [hvalue, outcome_afterSignificand hr, List.length_append, List.length_replicate,
    show places - d.figures.length + d.figures.length = places by omega, ← he] at hread
  have happend := signed_append negative ['0']
    ('.' :: (List.replicate (places - d.figures.length) '0' ++ d.figures)) rest
  rw [List.singleton_append] at happend
  rw [happend]
  exact hread

/-- All digits in place, some of them behind the point. -/
theorem outcome_fractionForm (expected : String) (negative : Bool) (hd : Legible d)
    (hg : Gap gap) (hr : Ended rest) (he : d.exponent < 0) :
    outcome (Reader.numeral expected)
        (gap ++ ((if negative then '-' :: d.positional else d.positional) ++ rest)) =
      outcome (floatOf negative d.digits d.exponent) rest := by
  obtain ⟨places, hplaces⟩ := Int.eq_ofNat_of_zero_le (show 0 ≤ -d.exponent by omega)
  have hexponent : d.exponent = -(places : Int) := by omega
  unfold Decimal.positional
  dsimp only
  rw [if_neg (show ¬ 0 ≤ d.exponent by omega), hplaces, Int.toNat_natCast]
  by_cases hlt : places < d.figures.length
  · rw [if_pos hlt]
    exact outcome_pointWithin expected negative hd hg hr hexponent (by omega) hlt
  · rw [if_neg hlt]
    exact outcome_pointBefore expected negative hd hg hr hexponent (Nat.le_of_not_lt hlt)

private theorem length_figures_le (hd : Legible d) : d.figures.length ≤ 19 := by
  refine (Nat.length_toDigits_le_iff (by decide) (by decide)).mpr ?_
  have := hd.digits
  omega

/-- An exponent as it is written is small enough to be read, and gives back the exponent of the decimal. -/
theorem scientific_bounds (hd : Legible d) :
    d.scientific.natAbs ≤ maxExponent ∧
      clampExponent (-((d.figures.length : Int) - 1) + d.scientific) = d.exponent := by
  have hlength := length_figures_le hd
  have hlow := hd.low
  have hhigh := hd.high
  unfold clampExponent Decimal.scientific maxExponent
  simp only [Nat.pow_eq]
  omega

/-- One digit before the point. -/
theorem outcome_exponentialForm (expected : String) (negative : Bool) (hd : Legible d)
    (hg : Gap gap) (hr : Ended rest) (hx : d.digits ≠ 0) :
    outcome (Reader.numeral expected)
        (gap ++ ((if negative then '-' :: d.exponential else d.exponential) ++ rest)) =
      outcome (floatOf negative d.digits d.exponent) rest := by
  obtain ⟨hscientific, hclamp⟩ := scientific_bounds hd
  obtain ⟨c, cs, hcs⟩ := List.exists_cons_of_ne_nil (figures_ne_nil d)
  have hall (c' : Char) (hc' : c' ∈ c :: cs) : c'.isDigit := isDigit_of_mem_figures (hcs ▸ hc')
  have hwhole : Whole [c] := by
    refine ⟨fun c' hc' => hall c' (List.mem_singleton.mp hc' ▸ List.mem_cons_self), by simp, fun hzero => ?_⟩
    exact absurd (head?_toDigits (show d.figures.head? = some '0' from hcs ▸ hzero)) hx
  have hvalue : Nat.ofDigitChars 10 (c :: cs) 0 = d.digits := hcs ▸ ofDigitChars_figures d
  have hlt := digits_lt hd
  have hend := outcome_exponentPart negative d.digits (-((d.figures.length : Int) - 1)) hscientific hr
  rw [hclamp, hcs] at hend
  unfold Decimal.exponential
  rw [hcs]
  cases cs with
  | nil =>
    have hread := outcome_exponent expected negative hg hwhole (hvalue ▸ hlt)
      ((if d.scientific < 0 then '-' else '+') :: (Nat.toDigits 10 d.scientific.natAbs ++ rest))
    rw [hvalue] at hread
    rw [signed_append]
    exact hread.trans hend
  | cons c' cs =>
    have hf (c'' : Char) (hc : c'' ∈ c' :: cs) : c''.isDigit := hall c'' (List.mem_cons_of_mem _ hc)
    have hmark : DigitsEnd ('e' :: (if d.scientific < 0 then '-' else '+') ::
        (Nat.toDigits 10 d.scientific.natAbs ++ rest)) := fun c hc => Option.some.inj hc ▸ rfl
    have hread := outcome_point expected negative hg hwhole hf (by simp) (hvalue ▸ hlt) hmark
    rw [List.singleton_append, hvalue] at hread
    have hlength : -(((c :: c' :: cs).length : Int) - 1) = -((c' :: cs).length : Int) := by simp
    rw [hlength] at hend
    rw [signed_point]
    exact hread.trans (outcome_afterSignificand_exponent.trans hend)

private theorem outcome_documentForm (expected : String) (negative : Bool) (hd : Legible d) (hg : Gap gap)
    (hr : Ended rest) :
    outcome (Reader.numeral expected)
        (gap ++ ((if negative then '-' :: documentForm d else documentForm d) ++ rest)) =
      outcome (floatOf negative (readForm d).1 (readForm d).2) rest := by
  unfold documentForm readForm
  by_cases hx : -5 ≤ d.scientific ∧ d.scientific < 16
  · by_cases he : 0 ≤ d.exponent
    · simp only [hx, he, and_self, if_true]
      exact outcome_integerForm expected negative hd hg hr hx.2 he
    · simp only [hx, he, and_self, and_false, if_false, if_true, List.append_nil]
      exact outcome_fractionForm expected negative hd hg hr (by omega)
  · have hno : ¬ (-5 ≤ d.scientific ∧ d.scientific < 16 ∧ 0 ≤ d.exponent) := fun h => hx ⟨h.1, h.2.1⟩
    simp only [hx, hno, if_false]
    refine outcome_exponentialForm expected negative hd hg hr fun hzero => hx ?_
    have hexponent := hd.zero hzero
    simp [Decimal.scientific, Decimal.figures, hzero, hexponent]

private theorem le_of_ten_zpow_le {x y : Int} (h : (10 : ℚ) ^ x ≤ 10 ^ y) : x ≤ y :=
  (zpow_le_zpow_iff_right₀ (by norm_num)).mp h

private theorem two_zpow_le_ten_zpow {x : Int} (hx : 0 ≤ x) : (2 : ℚ) ^ x ≤ 10 ^ x :=
  zpow_le_zpow_left₀ hx (by norm_num) (by norm_num)

/-- The number is at least `2 ^ -1075`, and the digits are less than `10 ^ 19`. -/
theorem low_exponent (he : -1074 ≤ e) (hdigits : d.digits ≤ 15 * 10 ^ 17)
    (hlow : (2 : ℚ) ^ (e - 1) ≤ d.size) : -2000 ≤ d.exponent := by
  have hdigitsq : (d.digits : ℚ) ≤ 10 ^ (19 : Int) := by
    have : d.digits ≤ 10 ^ 19 := Nat.le_trans hdigits (by decide)
    exact_mod_cast this
  have hunit : (10 : ℚ) ^ (-1075 : Int) ≤ 2 ^ (e - 1) := by
    calc (10 : ℚ) ^ (-1075 : Int) ≤ 2 ^ (-1075 : Int) := by
          rw [zpow_neg, zpow_neg]
          exact inv_anti₀ (by positivity) (two_zpow_le_ten_zpow (by decide))
      _ ≤ 2 ^ (e - 1) := zpow_le_zpow_right₀ (by norm_num) (by omega)
  have hle : (10 : ℚ) ^ (-1075 : Int) ≤ 10 ^ (19 + d.exponent) := by
    rw [zpow_add₀ (by norm_num)]
    exact hunit.trans (hlow.trans (mul_le_mul_of_nonneg_right hdigitsq (by positivity)))
  have := le_of_ten_zpow_le hle
  omega

/-- The number is below `2 ^ 1024`, and there is a digit. -/
theorem high_exponent (hm : m < 2 ^ 53) (he : e ≤ 971) (hdigits : 0 < d.digits)
    (hhigh : d.size ≤ (4 * m + 2) * 2 ^ (e - 2)) : d.exponent ≤ 2000 := by
  have hmq : (m : ℚ) ≤ 2 ^ 53 - 1 := by
    have hle : m + 1 ≤ 2 ^ 53 := hm
    have hleq : (m : ℚ) + 1 ≤ 2 ^ 53 := by exact_mod_cast hle
    linarith
  have hdigitsq : (1 : ℚ) ≤ d.digits := by exact_mod_cast hdigits
  have hle : (10 : ℚ) ^ d.exponent ≤ 10 ^ (55 + 969 : Int) := by
    calc (10 : ℚ) ^ d.exponent ≤ d.size := le_mul_of_one_le_left (by positivity) hdigitsq
      _ ≤ (4 * m + 2) * 2 ^ (e - 2) := hhigh
      _ ≤ 2 ^ (55 : Int) * 2 ^ (969 : Int) := by
        refine mul_le_mul ?_ (zpow_le_zpow_right₀ (by norm_num) (by omega)) (by positivity) (by positivity)
        norm_num
        linarith
      _ = 2 ^ (55 + 969 : Int) := (zpow_add₀ (by norm_num) _ _).symm
      _ ≤ 10 ^ (55 + 969 : Int) := two_zpow_le_ten_zpow (by decide)
  have := le_of_ten_zpow_le hle
  omega

private theorem legible_shortest (hm : 0 < m) (hm' : m < 2 ^ 53) (he : -1074 ≤ e) (he' : e ≤ 971) :
    Legible (Decimal.shortest .even m e) := by
  have hnear := Decimal.near_shortest .even hm e
  generalize Decimal.shortest .even m e = d at hnear ⊢
  rcases hnear.low with rfl | hlow
  · exact ⟨fun _ => rfl, Nat.zero_le _, by decide, by decide⟩
  have hsize : (0 : ℚ) < d.size := lt_of_lt_of_le (by positivity) hlow
  have hdigits : 0 < d.digits := by
    refine Nat.pos_of_ne_zero fun hzero => hsize.ne' ?_
    simp [Decimal.size, hzero]
  exact ⟨fun hzero => absurd hzero hdigits.ne', hnear.digits, low_exponent he hnear.digits hlow,
    high_exponent hm' he' hdigits hnear.high⟩

def reread? (x : Binary64) : Option Binary64 :=
  match x.value with
  | .finite negative m e =>
    let form := readForm (Decimal.shortest .even m e)
    (scaled 4 (.ofNat form.1) form.2).map fun y => if negative then y.negate else y
  | _ => none

/-- Zero is written like any other number. -/
theorem documentText?_eq {x : Binary64} (h : x.value = .finite negative m e) :
    x.documentText? = some (String.ofList (if negative then
      '-' :: documentForm (Decimal.shortest .even m e) else documentForm (Decimal.shortest .even m e))) := by
  unfold Binary64.documentText?
  rw [h]
  dsimp only
  by_cases hm : m = 0
  · have hzero : documentForm (Decimal.shortest .even m e) = "0.0".toList := by
      rw [hm, Decimal.shortest_zero]
      decide
    rw [if_pos hm, hzero]
    rfl
  · rw [if_neg hm]
    rfl

/-- The text of a number in a document is read as `reread?` says; infinities and NaN are refused. -/
theorem meets_float (x : Binary64) :
    Meets Reader.float (x.documentText?.getD "null").toList (reread? x) := by
  intro gap rest hg hr
  unfold reread?
  cases hfinite : x.isFinite with
  | true =>
    obtain ⟨negative, m, e, hv, hm, he, he'⟩ := Binary64.value_of_isFinite hfinite
    have hlegible : Legible (Decimal.shortest .even m e) := by
      rcases Nat.eq_zero_or_pos m with rfl | hpos
      · rw [Decimal.shortest_zero]
        exact ⟨fun _ => rfl, by decide, by decide, by decide⟩
      · exact legible_shortest hpos hm he he'
    have hread := outcome_documentForm "f64" negative hlegible hg hr
    rw [documentText?_eq hv, Option.getD_some, String.toList_ofList, hv]
    simp only [Reader.float, outcome_bind, hread, outcome_floatOf]
    cases scaled 4 (.ofNat (readForm (Decimal.shortest .even m e)).1)
      (readForm (Decimal.shortest .even m e)).2 <;> rfl
  | false =>
    have hnot := Binary64.value_of_not_isFinite hfinite
    have htext : x.documentText? = none := by
      unfold Binary64.documentText?
      cases hv : x.value with
      | finite negative m e => exact absurd hv (hnot negative m e)
      | _ => rfl
    have hnone : (match x.value with
        | .finite negative m e =>
          let form := readForm (Decimal.shortest .even m e)
          (scaled 4 (.ofNat form.1) form.2).map fun y => if negative then y.negate else y
        | _ => none) = none := by
      cases hv : x.value with
      | finite negative m e => exact absurd hv (hnot negative m e)
      | _ => rfl
    have hpeek := outcome_peek (s := "ull".toList ++ rest) hg (c := 'n') (by decide)
    have hagain := outcome_peek_cons (s := "ull".toList ++ rest) (c := 'n') (by decide)
    rw [htext, hnone]
    simp [Reader.float, Reader.numeral, wrongType] at hpeek hagain ⊢
    simp [hpeek, hagain]

/-- Every finite number is read back, and nothing else is. -/
theorem isSome_reread? (x : Binary64) : (reread? x).isSome ↔ x.isFinite := by
  unfold reread?
  cases hfinite : x.isFinite with
  | true =>
    obtain ⟨negative, m, e, hv, hm, he, he'⟩ := Binary64.value_of_isFinite hfinite
    simp only [hv, Option.isSome_map, iff_true, readForm]
    split
    · exact isSome_scaled_of_neg (show (-1 : Int) < 0 by decide) 4 _
    · rename_i hother
      refine isSome_scaled_shortest (Nat.pos_of_ne_zero fun hzero => hother ?_) hm he'
      rw [hzero, Decimal.shortest_zero]
      decide
  | false =>
    have hnot := Binary64.value_of_not_isFinite hfinite
    cases hv : x.value with
    | finite negative m e => exact absurd hv (hnot negative m e)
    | _ => simp

end BlockProgram.Json
