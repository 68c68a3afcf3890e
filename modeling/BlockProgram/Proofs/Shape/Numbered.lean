import Mathlib.Data.List.Basic

/-! Names that end in a number. The number can be read off the name again if nothing but the number ends
it in digits. -/
namespace BlockProgram

def stem (name : String) : List Char := name.toList.reverse.dropWhile Char.isDigit

def Unnumbered (name : String) : Prop := stem name = name.toList.reverse

instance (name : String) : Decidable (Unnumbered name) := inferInstanceAs (Decidable (_ = _))

private theorem stem_numbered (name : String) (i : Nat) : stem (name ++ toString i) = stem name := by
  unfold stem
  rw [String.toList_append, Nat.toString_eq_repr, Nat.toList_repr, List.reverse_append,
    List.dropWhile_append_of_pos]
  intro c hc
  exact Nat.isDigit_of_mem_toDigits (b := 10) (by omega) (by omega) (List.mem_reverse.mp hc)

theorem numbered_inj {name : String} {i j : Nat} (h : name ++ toString i = name ++ toString j) :
    i = j := by
  have hl := congrArg String.toList h
  simp only [String.toList_append, Nat.toString_eq_repr, Nat.toList_repr] at hl
  have hd := congrArg (Nat.ofDigitChars 10 · 0) (List.append_cancel_left hl)
  simpa using hd

/-- Names that do not end in digits are told from each other, and so are their numbers, once numbers
follow. -/
theorem Unnumbered.eq_of_numbered {name other : String} {i j : Nat} (h : Unnumbered name)
    (h' : Unnumbered other) (he : name ++ toString i = other ++ toString j) :
    name = other ∧ i = j := by
  have hs : name.toList.reverse = other.toList.reverse := by
    rw [← h, ← h', ← stem_numbered name i, he, stem_numbered]
  have hn : name = other := String.toList_inj.mp (List.reverse_inj.mp hs)
  subst hn
  exact ⟨rfl, numbered_inj he⟩

/-- A numbered name ends in a digit. -/
theorem Unnumbered.ne_numbered {name other : String} {i : Nat} (h : Unnumbered other) :
    name ++ toString i ≠ other := by
  intro he
  have hs : stem name = (name ++ toString i).toList.reverse := by
    rw [← stem_numbered name i, he, h]
  have hlen := congrArg List.length hs
  have hle : (stem name).length ≤ name.toList.length := by
    simpa [stem] using (List.dropWhile_sublist Char.isDigit (l := name.toList.reverse)).length_le
  have hpos : 0 < (Nat.toDigits 10 i).length := Nat.length_toDigits_pos
  rw [String.toList_append, Nat.toString_eq_repr, Nat.toList_repr] at hlen
  simp only [List.length_reverse, List.length_append] at hlen
  omega

end BlockProgram
