import BlockProgram.Proofs.Python.Binding

/-! Literals of numbers say the trees of numbers. A minus is written exactly before what is below zero. -/
namespace BlockProgram.Python

open Syntax

variable {v : Binary64} {negative : Bool} {mantissa : Nat} {exponent : Int} {e : Expr} {code : String}

private theorem value_of_not_finite (h : v.isFinite = false) :
    v.value = .nan ∨ ∃ negative, v.value = .infinite negative := by
  have hbiased : v.biased = 2047 := by simpa [Binary64.isFinite] using h
  unfold Binary64.value
  rw [if_pos hbiased]
  split
  · exact .inr ⟨_, rfl⟩
  · exact .inl rfl

private theorem value_of_finite (h : v.isFinite = true) :
    ∃ mantissa exponent, v.value = .finite v.negative mantissa exponent ∧
      (v.isZero = true ↔ mantissa = 0) := by
  have hbiased : v.biased ≠ 2047 := by simpa [Binary64.isFinite] using h
  unfold Binary64.value Binary64.isZero
  rw [if_neg hbiased]
  split
  · rename_i hzero
    exact ⟨_, _, rfl, by simp [hzero]⟩
  · rename_i hzero
    refine ⟨_, _, rfl, ?_⟩
    have hpos : 0 < Nat.pow 2 52 := by decide
    simp only [hzero, decide_false, Bool.false_and, Bool.false_eq_true, false_iff]
    omega

/-- Only zero is an integer of size zero. -/
theorem isIntegral_and_truncated_iff (hv : v.value = .finite negative mantissa exponent) :
    (v.isIntegral = true ∧ v.truncated = 0) ↔ mantissa = 0 := by
  unfold Binary64.isIntegral Binary64.truncated Binary64.ratio?
  rw [hv]
  dsimp only
  split
  · dsimp only
    generalize Nat.pow 2 (-exponent).toNat = den
    rw [decide_eq_true_iff]
    constructor
    · rintro ⟨hmod, hdiv⟩
      have hsplit := Nat.div_add_mod mantissa den
      rw [hmod, hdiv] at hsplit
      simpa using hsplit.symm
    · rintro rfl
      simp
  · have hpos : Nat.pow 2 exponent.toNat ≠ 0 := Nat.ne_of_gt (Nat.two_pow_pos _)
    generalize Nat.pow 2 exponent.toNat = scale at hpos
    have hzero : mantissa * scale = 0 ↔ mantissa = 0 := by rw [Nat.mul_eq_zero, or_iff_left hpos]
    simpa [Nat.mod_one] using hzero

section finite

variable (hv : v.value = .finite v.negative mantissa exponent) (hzero : v.isZero = true ↔ mantissa = 0)
include hv

private theorem isBelowZero_of_value : v.isBelowZero = (v.negative && !v.isZero) := by
  simp [Binary64.isBelowZero, Binary64.isNaN, hv]

private theorem plain_of_value (hsign : v.negative = v.isBelowZero) :
    v.plain = (if v.isBelowZero then "-" else "") ++
      String.ofList (Decimal.shortest .up mantissa exponent).positional := by
  have hminus : "-" = String.ofList ['-'] := rfl
  unfold Binary64.plain
  rw [hv, ← hsign]
  cases v.negative with
  | true =>
    rw [if_pos rfl, hminus, ← String.ofList_append]
    rfl
  | false =>
    rw [if_neg Bool.false_ne_true, String.empty_append]
    rfl

include hzero

private theorem sign_of_integral (h : v.isIntegral = true) :
    (v.negative && v.truncated ≠ 0) = v.isBelowZero := by
  have hwhole := isIntegral_and_truncated_iff hv
  simp only [h, true_and] at hwhole
  rw [isBelowZero_of_value hv, Bool.eq_iff_iff]
  simp [hwhole, ← hzero]

private theorem sign_of_large (h : ¬ (v.isIntegral && v.truncated < Nat.pow 10 15) = true) :
    v.negative = v.isBelowZero := by
  have hnonzero : v.isZero = false := by
    rw [Bool.eq_false_iff]
    intro hz
    obtain ⟨hintegral, htruncated⟩ := (isIntegral_and_truncated_iff hv).mpr (hzero.mp hz)
    rw [hintegral, htruncated] at h
    exact h (by decide)
  simp [isBelowZero_of_value hv, hnonzero]

end finite

private theorem spelled_float {s : String} : Spelled (.call (.name "float") [.text s])
    ("float(" ++ textLiteral s ++ ")") .call := by
  have hfloat : Proper "float" := by decide
  have hcode : "float(" = "float" ++ "(" := by decide
  rw [hcode]
  have hcall := (subject_name hfloat).callOne ((subject_text s).phrase.loosen (Nat.zero_le _))
  exact .of_subject hcall (by decide) rfl rfl

private theorem phrase_decimal (d : Decimal) :
    Phrase .atom (decimalTree d) (String.ofList d.positional) := by
  refine ⟨(opens_positional d).mono fun _ => leads_of_digit, _,
    (reads_positional d).mono fun _ => endsNumber_of_closes, ?_⟩
  unfold positionalToken decimalTree
  split
  · exact .integer _
  · exact .decimal _ _

private theorem isNumber_decimalTree (d : Decimal) : (decimalTree d).isNumber = true := by
  unfold decimalTree
  split <;> rfl

/-- A literal without a sign, and one with a minus before it. -/
theorem spelled_signed (hnumber : e.isNumber = true) (h : Phrase .atom e code) :
    Spelled (if negative then .negative e else e) ((if negative then "-" else "") ++ code)
      (if negative then .sign else .atom) := by
  cases negative with
  | true => exact .of_phrase (phrase_negative (h.loosen (by decide))) (by decide) (by decide) rfl rfl
  | false =>
    have hplain : e.disjuncts = [e] ∧ e.conjuncts = [e] := by
      cases e <;> first | exact ⟨rfl, rfl⟩ | cases hnumber
    simp only [Bool.false_eq_true, if_false, String.empty_append]
    exact .other (by decide) (h.loosen (by decide)) hplain.1 hplain.2 fun _ hn => by simp [hnumber] at hn

/-- The literal of a number says the tree of the number. -/
theorem spelled_number (v : Binary64) : Spelled (numberTree v) (numberLiteral v)
    (if !v.isFinite then .call else if v.isBelowZero then .sign else .atom) := by
  cases hfinite : v.isFinite with
  | false =>
    obtain hv | ⟨negative, hv⟩ := value_of_not_finite hfinite
    · simp only [numberTree, numberLiteral, hv, Bool.not_false, if_true]
      exact spelled_float
    · simp only [numberTree, numberLiteral, hv, Bool.not_false, if_true]
      cases negative <;> exact spelled_float
  | true =>
    obtain ⟨mantissa, exponent, hv, hzero⟩ := value_of_finite hfinite
    simp only [numberTree, numberLiteral, hv, Bool.not_true, Bool.false_eq_true, if_false]
    by_cases hsmall : (v.isIntegral && v.truncated < Nat.pow 10 15) = true
    · simp only [if_pos hsmall]
      rw [sign_of_integral hv hzero (Bool.and_eq_true_iff.mp hsmall).1]
      exact spelled_signed rfl (phrase_integer _)
    · simp only [if_neg hsmall]
      rw [plain_of_value hv (sign_of_large hv hzero hsmall)]
      exact spelled_signed (isNumber_decimalTree _) (phrase_decimal _)

private theorem digits_signed {n : Nat} (h : (if negative then .negative e else e) = .integer n)
    (hdigits : e = .integer n → Digits code) : Digits ((if negative then "-" else "") ++ code) := by
  cases negative with
  | true => cases h
  | false =>
    simp only [Bool.false_eq_true, if_false, String.empty_append] at h ⊢
    exact hdigits h

/-- An integer without a sign is written with digits only. -/
theorem digits_of_integer {n : Nat} (h : numberTree v = .integer n) : Digits (numberLiteral v) := by
  cases hfinite : v.isFinite with
  | false =>
    obtain hv | ⟨negative, hv⟩ := value_of_not_finite hfinite
    · simp [numberTree, hv] at h
    · simp [numberTree, hv] at h
  | true =>
    obtain ⟨mantissa, exponent, hv, hzero⟩ := value_of_finite hfinite
    simp only [numberTree, numberLiteral, hv] at h ⊢
    by_cases hsmall : (v.isIntegral && v.truncated < Nat.pow 10 15) = true
    · simp only [if_pos hsmall] at h ⊢
      rw [sign_of_integral hv hzero (Bool.and_eq_true_iff.mp hsmall).1]
      exact digits_signed h fun _ => digits_toString _
    · simp only [if_neg hsmall] at h ⊢
      rw [plain_of_value hv (sign_of_large hv hzero hsmall)]
      refine digits_signed h fun hd => digits_positional ?_
      unfold decimalTree at hd
      split at hd
      · assumption
      · cases hd

end BlockProgram.Python
