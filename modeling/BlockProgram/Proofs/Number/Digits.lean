import Mathlib.Data.List.Induction

/-! Decimal digits of natural numbers. No zero stands before another digit. -/
namespace BlockProgram

variable {c : Char} {n : Nat}

theorem head?_toDigits (h : (Nat.toDigits 10 n).head? = some '0') : n = 0 := by
  induction n using Nat.strongRecOn with
  | _ n ih =>
    by_cases hn : n < 10
    · rw [Nat.toDigits_of_lt_base hn] at h
      simpa using h
    · rw [Nat.toDigits_of_base_le (by omega) (by omega), List.head?_append] at h
      cases hd : (Nat.toDigits 10 (n / 10)).head? with
      | none => exact (Nat.toDigits_ne_nil (List.head?_eq_none_iff.mp hd)).elim
      | some c =>
        rw [hd] at h
        have := ih (n / 10) (by omega) (hd.trans h)
        omega

theorem isDigit_of_mem_toDigits (h : c ∈ Nat.toDigits 10 n) : c.isDigit :=
  Nat.isDigit_of_mem_toDigits (by omega) (by omega) h

theorem isDigit_of_mem_zeros (h : c ∈ List.replicate n '0') : c.isDigit := by
  rw [(List.mem_replicate.mp h).2]
  decide

/-- More digits make a number larger. -/
theorem le_ofDigitChars (ds : List Char) (m : Nat) : m ≤ Nat.ofDigitChars 10 ds m := by
  induction ds generalizing m with
  | nil => exact Nat.le_refl m
  | cons c ds ih =>
    rw [Nat.ofDigitChars_cons]
    have := ih (10 * m + (c.toNat - '0'.toNat))
    omega

private theorem digitChar_toNat (hc : c.isDigit) : Nat.digitChar (c.toNat - '0'.toNat) = c := by
  obtain ⟨hlow, hhigh⟩ := Char.isDigit_iff_toNat.mp hc
  have hall : ∀ k < 10, Nat.digitChar k = Char.ofNat ('0'.toNat + k) := by decide
  have hten : c.toNat - '0'.toNat < 10 := by
    simp only [Char.reduceToNat] at hlow hhigh ⊢
    omega
  rw [hall _ hten, Nat.add_sub_cancel' hlow, Char.ofNat_toNat]

/-- A number is written with the digits from which it was read, if no zero stands before another one. -/
theorem toDigits_ofDigitChars {ds : List Char} (hne : ds ≠ []) (hd : ∀ c ∈ ds, c.isDigit)
    (hzero : ds.head? = some '0' → ds = ['0']) : Nat.toDigits 10 (Nat.ofDigitChars 10 ds 0) = ds := by
  induction ds using List.reverseRecOn with
  | nil => exact (hne rfl).elim
  | append_singleton ds c ih =>
    obtain ⟨hds, hc⟩ := List.forall_mem_append.mp hd
    have hlast : Nat.digitChar (c.toNat - '0'.toNat) = c := digitChar_toNat (hc c (by simp))
    have hlt : c.toNat - '0'.toNat < 10 := by
      have hdigit := Nat.isDigit_digitChar (n := c.toNat - '0'.toNat)
      rw [hlast, hc c (by simp)] at hdigit
      simpa using hdigit.symm
    rw [Nat.ofDigitChars_append, Nat.ofDigitChars_cons, Nat.ofDigitChars_nil]
    cases ds with
    | nil =>
      rw [Nat.ofDigitChars_nil, Nat.mul_zero, Nat.zero_add, Nat.toDigits_of_lt_base hlt, hlast]
      rfl
    | cons d ds =>
      have hfirst : d ≠ '0' := by
        rintro rfl
        have := congrArg List.length (hzero rfl)
        simp at this
      have ih := ih (List.cons_ne_nil d ds) hds (by simpa using fun h => (hfirst h).elim)
      have hpos : 0 < Nat.ofDigitChars 10 (d :: ds) 0 := by
        apply Nat.pos_of_ne_zero
        intro h
        rw [h, Nat.toDigits_zero] at ih
        exact hfirst (List.cons.inj ih).1.symm
      rw [← Nat.toDigits_append_toDigits (by omega) hpos hlt, ih, Nat.toDigits_of_lt_base hlt, hlast]

end BlockProgram
