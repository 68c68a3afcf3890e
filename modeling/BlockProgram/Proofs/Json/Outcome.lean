import BlockProgram.Json.Printer
import BlockProgram.Json.Reader
import BlockProgram.Proofs.Number.Digits

/-! What readers make of texts. A reader meets the text of a value if it reads that value off the front of
any text, whatever blanks stand before it and wherever a value may end. -/
namespace BlockProgram.Json

open Value Reader

variable {α β : Type} {s gap rest ds : List Char} {c : Char}

/-- What a reader makes of a text, and what it leaves of it. Why it refuses a text does not matter here. -/
def outcome (read : Reader α) (s : List Char) : Option (α × List Char) := (read s).toOption

@[simp]
theorem outcome_bind (read : Reader α) (f : α → Reader β) (s : List Char) :
    outcome (read >>= f) s = (outcome read s).bind fun p => outcome (f p.1) p.2 := by
  unfold outcome
  change (Except.bind (read s) fun p => f p.1 p.2).toOption = _
  cases read s <;> rfl

@[simp]
theorem outcome_pure (a : α) (s : List Char) : outcome (pure a) s = some (a, s) := rfl

@[simp]
theorem outcome_map (f : α → β) (read : Reader α) (s : List Char) :
    outcome (f <$> read) s = (outcome read s).map fun p => (f p.1, p.2) := by
  rw [← bind_pure_comp, outcome_bind]
  cases outcome read s <;> rfl

@[simp]
theorem outcome_get (s : List Char) : outcome get s = some (s, s) := rfl

@[simp]
theorem outcome_set (s s' : List Char) : outcome (set s') s = some ((), s') := rfl

@[simp]
theorem outcome_skip (c : Char) (s : List Char) : outcome skip (c :: s) = some ((), s) := rfl

@[simp]
theorem outcome_failHere (cause : Cause) (s : List Char) :
    outcome (failHere cause : Reader α) s = none := rfl

@[simp]
theorem outcome_failNext (cause : Cause) (s : List Char) :
    outcome (failNext cause : Reader α) s = none := rfl

@[simp]
theorem outcome_failFloating (cause : Cause) (s : List Char) :
    outcome (failFloating cause : Reader α) s = none := rfl

/-- Where a fault has its place does not matter for what is read. -/
@[simp]
theorem outcome_settle (leave : List Char → List Char) (read : Reader α) (s : List Char) :
    outcome (settle leave read) s = outcome read s := by
  unfold outcome settle
  cases read s with
  | ok p => rfl
  | error fault => cases fault <;> rfl

def Gap (s : List Char) : Prop := ∀ c ∈ s, isSpace c

theorem gap_nil : Gap [] := List.forall_mem_nil _

theorem gap_blank : Gap [' '] := by simp [Gap, isSpace]

theorem gap_lineBreak (level : Nat) : Gap (lineBreak level) := by
  intro c hc
  rcases List.mem_cons.mp hc with rfl | hc
  · rfl
  · rw [List.eq_of_mem_replicate hc]
    rfl

theorem outcome_peek (hg : Gap gap) (hc : isSpace c = false) :
    outcome peek (gap ++ c :: s) = some (some c, c :: s) := by
  have hdrop : (gap ++ c :: s).dropWhile isSpace = c :: s := by
    rw [List.dropWhile_append_of_pos hg, List.dropWhile_cons_of_neg (by simpa using hc)]
  unfold outcome peek
  simp only [hdrop]
  rfl

theorem outcome_peek_cons (hc : isSpace c = false) :
    outcome peek (c :: s) = some (some c, c :: s) := outcome_peek gap_nil hc

/-- A value may end before this text. -/
def Ended (rest : List Char) : Prop := ∀ c ∈ rest.head?, c = ',' ∨ c = '\n'

/-- The reader makes `a?` of the text, wherever it stands. -/
def Meets (read : Reader α) (text : List Char) (a? : Option α) : Prop :=
  ∀ gap rest, Gap gap → Ended rest → outcome read (gap ++ (text ++ rest)) = a?.map (·, rest)

private theorem hexDigit?_hexDigit : ∀ n < 16, Reader.hexDigit? (Value.hexDigit n) = some n := by
  decide

/-- Four bytes at least, one for each character. -/
theorem outcome_hexEscape {n : Nat} (hn : n < 0x20) :
    outcome hexEscape ('0' :: '0' :: Value.hexDigit (n / 16) :: Value.hexDigit (n % 16) :: s) =
      some (n, s) := by
  have hsize : ¬ Text.byteSize
      (('0' :: '0' :: Value.hexDigit (n / 16) :: Value.hexDigit (n % 16) :: s).take 4) < 4 := by
    have hpos (c : Char) : 0 < c.utf8Size := Char.utf8Size_pos c
    have h0 : '0'.utf8Size = 1 := rfl
    have h1 := hpos (Value.hexDigit (n / 16))
    have h2 := hpos (Value.hexDigit (n % 16))
    simp only [List.take_succ_cons, List.take_zero, Text.byteSize]
    omega
  have hzero : Reader.hexDigit? '0' = some 0 := by decide
  unfold outcome hexEscape
  simp only [hsize, if_false, hexValue?, hzero, hexDigit?_hexDigit (n / 16) (by omega),
    hexDigit?_hexDigit (n % 16) (by omega), Option.bind_eq_bind, Option.bind_some, Option.pure_def]
  rw [show 4096 * 0 + 256 * 0 + 16 * (n / 16) + n % 16 = n by omega]
  rfl

private theorem outcome_stringRest_plain (hquote : c ≠ '"') (hback : c ≠ '\\') (hc : ¬ c.toNat < 0x20)
    (fuel : Nat) : outcome (stringRest (fuel + 1)) (c :: s) =
      (outcome (stringRest fuel) s).map fun p => (c :: p.1, p.2) := by
  simp [stringRest, hquote, hback, hc]

private theorem outcome_stringRest_escape (fuel : Nat) :
    outcome (stringRest (fuel + 1)) ('\\' :: s) =
      (outcome escape s).bind fun p =>
        (outcome (stringRest fuel) p.2).map fun q => (p.1 :: q.1, q.2) := by
  simp [stringRest]

private theorem outcome_escape_letter {d : Char} (hu : c ≠ 'u') (hd : letterEscape? c = some d) :
    outcome escape (c :: s) = some (d, s) := by
  simp [escape, hu, hd]

private theorem outcome_escape_code (hc : c.toNat < 0x20) :
    outcome escape
      ('u' :: '0' :: '0' :: Value.hexDigit (c.toNat / 16) :: Value.hexDigit (c.toNat % 16) :: s) =
        some (c, s) := by
  have hlow : ¬ (0xDC00 ≤ c.toNat ∧ c.toNat ≤ 0xDFFF) := by omega
  have hhigh : ¬ (0xD800 ≤ c.toNat ∧ c.toNat ≤ 0xDBFF) := by omega
  simp [escape, codeEscape, outcome_hexEscape hc, hlow, hhigh]

/-- What stands for a character is read back as it. -/
theorem outcome_stringRest_escapedChar (c : Char) (fuel : Nat) (s : List Char) :
    outcome (stringRest (fuel + 1)) (escapedChar c ++ s) =
      (outcome (stringRest fuel) s).map fun p => (c :: p.1, p.2) := by
  have hletter {letter d : Char} (hu : letter ≠ 'u') (hd : letterEscape? letter = some d) :
      outcome (stringRest (fuel + 1)) (['\\', letter] ++ s) =
        (outcome (stringRest fuel) s).map fun p => (d :: p.1, p.2) := by
    rw [List.cons_append, outcome_stringRest_escape, List.singleton_append,
      outcome_escape_letter hu hd, Option.bind_some]
  unfold escapedChar
  split
  · exact hletter (by decide) rfl
  · exact hletter (by decide) rfl
  · exact hletter (by decide) rfl
  · exact hletter (by decide) rfl
  · exact hletter (by decide) rfl
  · exact hletter (by decide) rfl
  · exact hletter (by decide) rfl
  · rename_i hquote hback _ _ _ _ _
    split
    · rename_i hc
      simp only [List.cons_append, List.nil_append]
      rw [outcome_stringRest_escape, outcome_escape_code hc, Option.bind_some]
    · rename_i hc
      exact outcome_stringRest_plain hquote hback hc fuel

private theorem outcome_stringRest (l : List Char) {fuel : Nat} (hf : l.length < fuel) :
    outcome (stringRest fuel) (l.flatMap escapedChar ++ '"' :: rest) = some (l, rest) := by
  induction l generalizing fuel with
  | nil =>
    obtain ⟨fuel, rfl⟩ : ∃ n, fuel = n + 1 := ⟨fuel - 1, by simp at hf; omega⟩
    simp [stringRest]
  | cons c l ih =>
    obtain ⟨fuel, rfl⟩ : ∃ n, fuel = n + 1 := ⟨fuel - 1, by simp at hf; omega⟩
    rw [List.flatMap_cons, List.append_assoc, outcome_stringRest_escapedChar, ih (by simpa using hf)]
    rfl

theorem outcome_openString (s : String) :
    outcome openString (s.toList.flatMap escapedChar ++ '"' :: rest) = some (s, rest) := by
  have hlen (l : List Char) : l.length ≤ (l.flatMap escapedChar).length := by
    induction l with
    | nil => simp
    | cons c l ih =>
      have hpos : 0 < (escapedChar c).length := by
        unfold escapedChar
        split <;> try simp
        split <;> simp
      rw [List.flatMap_cons, List.length_append, List.length_cons]
      omega
  have hread : outcome (stringRest ((s.toList.flatMap escapedChar ++ '"' :: rest).length + 1))
      (s.toList.flatMap escapedChar ++ '"' :: rest) = some (s.toList, rest) := by
    have := hlen s.toList
    exact outcome_stringRest s.toList (by rw [List.length_append]; omega)
  simp only [openString, outcome_bind, outcome_get, Option.bind_some, hread, outcome_pure,
    String.ofList_toList]

/-- A string may also end before a colon. -/
theorem outcome_string (expected s : String) (hg : Gap gap) :
    outcome (Reader.string expected) (gap ++ (stringText s ++ rest)) = some (s, rest) := by
  have hpeek := outcome_peek (s := s.toList.flatMap escapedChar ++ '"' :: rest) hg
    (c := '"') (by decide)
  simp [Reader.string, stringText, hpeek, outcome_openString]

/-- A text is read back from between its quotes. -/
theorem meets_string (expected s : String) :
    Meets (Reader.string expected) (stringText s) (some s) :=
  fun _ _ hg _ => outcome_string expected s hg

theorem meets_anything (depth : Nat) (s : String) :
    Meets (anything depth) (stringText s) (some (.string s)) := by
  have hvalue (list object : Reader Found) :
      Meets (valueWith list object) (stringText s) (some (.string s)) := by
    intro gap rest hg _
    have hpeek := outcome_peek (s := s.toList.flatMap escapedChar ++ '"' :: rest) hg
      (c := '"') (by decide)
    simp [valueWith, stringText, hpeek, outcome_openString]
  cases depth with
  | zero => exact hvalue _ _
  | succ depth => exact hvalue _ _

theorem outcome_choice (known : List (String × α)) (name : String) (hg : Gap gap) :
    outcome (Reader.choice known) (gap ++ (stringText name ++ rest)) =
      (known.find? fun k => k.1 = name).map fun k => (k.2, rest) := by
  simp only [Reader.choice, outcome_bind, outcome_string _ name hg, Option.bind_some]
  split <;> simp [*]

private theorem outcome_word (rest word : List Char) :
    outcome (Reader.word word) (word ++ rest) = some ((), rest) := by
  induction word with
  | nil => rfl
  | cons c word ih => simpa [Reader.word] using ih

theorem meets_bool (b : Bool) :
    Meets Reader.bool (if b then "true" else "false").toList (some b) := by
  intro gap rest hg _
  cases b with
  | true =>
    have hpeek := outcome_peek (s := "rue".toList ++ rest) hg (c := 't') (by decide)
    have hword := outcome_word rest "rue".toList
    simp [Reader.bool] at hpeek hword ⊢
    simp [hpeek, hword]
  | false =>
    have hpeek := outcome_peek (s := "alse".toList ++ rest) hg (c := 'f') (by decide)
    have hword := outcome_word rest "alse".toList
    simp [Reader.bool] at hpeek hword ⊢
    simp [hpeek, hword]

/-- Digits only, without a zero in front of others. -/
structure Whole (ds : List Char) : Prop where
  digits : ∀ c ∈ ds, c.isDigit
  nonempty : ds ≠ []
  zero : ds.head? = some '0' → ds = ['0']

private theorem whole_toDigits (n : Nat) : Whole (Nat.toDigits 10 n) :=
  ⟨fun _ => isDigit_of_mem_toDigits, Nat.toDigits_ne_nil, fun h => head?_toDigits h ▸ Nat.toDigits_zero 10⟩

def DigitsEnd (rest : List Char) : Prop := ∀ c ∈ rest.head?, c.isDigit = false

theorem Ended.digitsEnd (h : Ended rest) : DigitsEnd rest := by
  intro c hc
  rcases h c hc with rfl | rfl <;> rfl

/-- All digits are read, up to the first character that is none. -/
theorem outcome_digits (h : ∀ c ∈ ds, c.isDigit) (hr : DigitsEnd rest) :
    outcome Reader.digits (ds ++ rest) = some (ds, rest) := by
  have hstop : rest.takeWhile Char.isDigit = [] ∧ rest.dropWhile Char.isDigit = rest := by
    cases rest with
    | nil => exact ⟨rfl, rfl⟩
    | cons c rest =>
      have hc : ¬ c.isDigit = true := by simpa using hr c rfl
      exact ⟨List.takeWhile_cons_of_neg hc, List.dropWhile_cons_of_neg hc⟩
  unfold outcome Reader.digits
  rw [List.takeWhile_append_of_pos h, List.dropWhile_append_of_pos h, hstop.1, hstop.2,
    List.append_nil]
  rfl

/-- A significand that fits is read in full. -/
theorem accumulate_digits {m : Nat} (hlt : Nat.ofDigitChars 10 ds m < Nat.pow 2 64) :
    accumulate m ds = (Nat.ofDigitChars 10 ds m, []) := by
  induction ds generalizing m with
  | nil => rfl
  | cons c ds ih =>
    rw [Nat.ofDigitChars_cons] at hlt ⊢
    have hfits : 10 * m + digitValue c < Nat.pow 2 64 := Nat.lt_of_le_of_lt (le_ofDigitChars ds _) hlt
    unfold accumulate
    dsimp only
    rw [if_pos hfits]
    exact ih hlt

private theorem outcome_unsignedNumber (negative : Bool) (hds : Whole ds) (hr : DigitsEnd rest) :
    outcome (unsignedNumber negative) (ds ++ rest) =
      outcome (unsignedNumber.finish negative ds (rest.head?.getD ' ')) rest := by
  obtain ⟨c, cs, rfl⟩ := List.exists_cons_of_ne_nil hds.nonempty
  have hc : c.isDigit = true := hds.digits c List.mem_cons_self
  unfold unsignedNumber
  by_cases hzero : c = '0'
  · obtain ⟨-, rfl⟩ := List.cons.inj (hds.zero (hzero ▸ rfl))
    cases rest with
    | nil => simp [hzero]
    | cons d rest => simp [hzero, hr d rfl]
  · have hread := outcome_digits hds.digits hr
    rw [List.cons_append] at hread
    cases rest with
    | nil =>
      rw [List.append_nil] at hread
      simp [hc, hzero, hread]
    | cons d rest => simp [hc, hzero, hread]

private theorem isSpace_of_isDigit (hc : c.isDigit) : isSpace c = false := by
  rw [Bool.eq_false_iff]
  intro hs
  simp only [isSpace, Bool.or_eq_true, decide_eq_true_eq] at hs
  rcases hs with ((rfl | rfl) | rfl) | rfl <;> cases hc

/-- A number starts here, with or without a minus. -/
theorem outcome_numeral (expected : String) (negative : Bool) (hg : Gap gap) (hds : Whole ds)
    (hr : DigitsEnd rest) :
    outcome (Reader.numeral expected) (gap ++ ((if negative then '-' :: ds else ds) ++ rest)) =
      outcome (unsignedNumber.finish negative ds (rest.head?.getD ' ')) rest := by
  have hread := outcome_unsignedNumber negative hds hr
  obtain ⟨c, cs, rfl⟩ := List.exists_cons_of_ne_nil hds.nonempty
  have hc : c.isDigit = true := hds.digits c List.mem_cons_self
  cases negative with
  | true =>
    have hpeek := outcome_peek (s := c :: cs ++ rest) hg (c := '-') (by decide)
    rw [if_pos rfl, ← hread]
    simp [Reader.numeral, Reader.number] at hpeek ⊢
    simp [hpeek]
  | false =>
    have hpeek := outcome_peek (s := cs ++ rest) hg (isSpace_of_isDigit hc)
    have hminus : c ≠ '-' := by
      rintro rfl
      cases hc
    rw [if_neg Bool.false_ne_true, ← hread]
    simp [Reader.numeral, Reader.number, hpeek, hc, hminus]

theorem meets_word32 {n : Nat} (hn : n < Nat.pow 2 32) :
    Meets word32 (Nat.toDigits 10 n) (some n) := by
  intro gap rest hg hr
  have hread := outcome_numeral "u32" false hg (whole_toDigits n) hr.digitsEnd
  have hvalue : Nat.ofDigitChars 10 (Nat.toDigits 10 n) 0 = n := Nat.ofDigitChars_ten_toDigits
  have haccumulate : accumulate 0 (Nat.toDigits 10 n) = (n, []) := by
    have hbound : Nat.pow 2 32 < Nat.pow 2 64 := by decide
    rw [accumulate_digits (by omega), hvalue]
  have hfinish : outcome (unsignedNumber.finish false (Nat.toDigits 10 n) (rest.head?.getD ' ')) rest =
      some (.natural n, rest) := by
    unfold unsignedNumber.finish
    rw [haccumulate]
    cases rest with
    | nil => rfl
    | cons c rest => rcases hr c rfl with rfl | rfl <;> rfl
  rw [if_neg Bool.false_ne_true, hfinish] at hread
  simp [word32, hread, hn]

end BlockProgram.Json
