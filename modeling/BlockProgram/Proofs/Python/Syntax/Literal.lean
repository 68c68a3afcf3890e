import BlockProgram.Proofs.Number.Digits
import BlockProgram.Proofs.Python.Syntax.Lexer
import BlockProgram.Python.Literal
import Mathlib.Algebra.Group.Nat.Defs

/-! Literals are read as what they stand for: a text as its characters, a number as its digits. -/
namespace BlockProgram.Python.Syntax

variable {c : Char} {cs rest : List Char} {n : Nat} {d : Decimal}

/-- A character is escaped in its literal, or stands for itself. -/
theorem literalChar_cases (c : Char) :
    (∃ d, literalChar c = ['\\', d] ∧ escaped? d = some c) ∨
      literalChar c = [c] ∧ c ≠ '\\' ∧ c ≠ '\'' ∧ c ≠ '\n' ∧ c ≠ '\r' ∧ c ≠ '\t' := by
  unfold literalChar
  split
  · exact .inl ⟨_, rfl, rfl⟩
  · exact .inl ⟨_, rfl, rfl⟩
  · exact .inl ⟨_, rfl, rfl⟩
  · exact .inl ⟨_, rfl, rfl⟩
  · exact .inl ⟨_, rfl, rfl⟩
  · rename_i hslash hquote hline hreturn htab
    exact .inr ⟨rfl, hslash, hquote, hline, hreturn, htab⟩

private theorem textBody?_literalChar :
    textBody? (literalChar c ++ rest) = (textBody? rest).map fun (s, rest) => (c :: s, rest) := by
  rcases literalChar_cases c with ⟨d, hc, hd⟩ | ⟨hc, hslash, hquote, hline, hreturn, -⟩
  · rw [hc, List.cons_append, List.singleton_append, textBody?, hd, Option.bind_some]
  · rw [hc, List.singleton_append, textBody?]
    · exact hquote
    · exact fun c rest h => (hslash h).elim
    · exact hline
    · exact hreturn

private theorem textBody?_flatMap :
    textBody? (cs.flatMap literalChar ++ '\'' :: rest) = some (cs, rest) := by
  induction cs with
  | nil => rfl
  | cons c cs ih =>
    rw [List.flatMap_cons, List.append_assoc, textBody?_literalChar, ih]
    rfl

private theorem inline_of_mem_literalChar {d : Char} (h : d ∈ literalChar c) :
    d ≠ '\n' ∧ d ≠ '\r' ∧ d ≠ '\t' := by
  rcases literalChar_cases c with ⟨e, hc, he⟩ | ⟨hc, -, -, hplain⟩
  · rw [hc, List.mem_pair] at h
    rcases h with rfl | rfl
    · decide
    · refine ⟨?_, ?_, ?_⟩ <;> rintro rfl <;> cases he
  · rw [hc, List.mem_singleton] at h
    exact h ▸ hplain

def quoted? : List Char → Option (List Char × List Char)
  | '\'' :: rest => textBody? rest
  | _ => none

example : quoted? "'it\\'s' + x".toList = some ("it's".toList, " + x".toList) := by decide

/-- Whether the character after `cs` is escaped: the last one is a backslash, not itself escaped. -/
def escaping (cs : List Char) : Bool :=
  cs.foldl (fun pending c => c = '\\' && !pending) false

private theorem escaping_append_literalChar (h : escaping cs = false) :
    escaping (cs ++ literalChar c) = false := by
  unfold escaping at h ⊢
  rw [List.foldl_append, h]
  rcases literalChar_cases c with ⟨d, hc, -⟩ | ⟨hc, hslash, -⟩
  · simp [hc]
  · simp [hc, hslash]

private theorem escaping_append_flatMap {before : List Char} (h : escaping before = false) :
    escaping (before ++ cs.flatMap literalChar) = false := by
  induction cs generalizing before with
  | nil => rwa [List.flatMap_nil, List.append_nil]
  | cons c cs ih =>
    rw [List.flatMap_cons, ← List.append_assoc]
    exact ih (escaping_append_literalChar h)

/-- A quote in the literal of a character comes after a backslash. -/
theorem literalChar_eq_append {before after : List Char}
    (h : literalChar c = before ++ '\'' :: after) : before = ['\\'] := by
  rcases literalChar_cases c with ⟨d, hc, -⟩ | ⟨hc, -, hquote, -⟩
  · rw [hc] at h
    cases before with
    | nil => cases h
    | cons e before =>
      obtain ⟨rfl, htail⟩ := List.cons.inj h
      obtain ⟨rfl, -⟩ | ⟨-, hnil⟩ := List.append_eq_singleton_iff.mp htail.symm
      · rfl
      · cases hnil
  · rw [hc] at h
    obtain ⟨-, he⟩ | ⟨-, hnil⟩ := List.append_eq_singleton_iff.mp h.symm
    · exact (hquote (List.cons.inj he).1.symm).elim
    · cases hnil

/-- After a text that leaves no escape open, each quote in the literals of characters is escaped. -/
theorem escaping_of_flatMap {before inner after : List Char} (hbefore : escaping before = false)
    (h : cs.flatMap literalChar = inner ++ '\'' :: after) : escaping (before ++ inner) = true := by
  induction cs generalizing before inner with
  | nil => simp at h
  | cons c cs ih =>
    rw [List.flatMap_cons] at h
    -- the quote comes from a later character, or from the first one
    rcases List.append_eq_append_iff.mp h with ⟨later, rfl, htail⟩ | ⟨own, hown, htail⟩
    · rw [← List.append_assoc]
      exact ih (escaping_append_literalChar hbefore) htail
    · cases own with
      | nil =>
        rw [List.append_nil] at hown
        have hopen : escaping (before ++ literalChar c ++ []) = true :=
          ih (escaping_append_literalChar hbefore) htail.symm
        rwa [List.append_nil, hown] at hopen
      | cons d own =>
        obtain ⟨rfl, -⟩ := List.cons.inj htail
        rw [literalChar_eq_append hown, escaping, List.foldl_append, ← escaping, hbefore]
        rfl

/-- Read from its first quote on, the literal of a text ends where it was meant to end, whatever comes
after it, and gives the text. It is part of one line and has no tabs, and no quote in it is bare but
those at its ends. -/
theorem textLiteral_read_back (s : String) :
    (∀ c ∈ (textLiteral s).toList, c ≠ '\n' ∧ c ≠ '\r' ∧ c ≠ '\t') ∧
    (∃ inner, (textLiteral s).toList = '\'' :: (inner ++ ['\''])) ∧
    (∀ before after, (textLiteral s).toList = before ++ '\'' :: after →
      (escaping before = false ↔ before = [] ∨ after = [])) ∧
    ∀ rest, quoted? ((textLiteral s).toList ++ rest) = some (s.toList, rest) := by
  have hlist : (textLiteral s).toList = '\'' :: (s.toList.flatMap literalChar ++ ['\'']) :=
    String.toList_ofList
  rw [hlist]
  refine ⟨fun c hc => ?_, ⟨_, rfl⟩, fun before after h => ?_, fun rest => ?_⟩
  · rcases List.mem_cons.mp hc with rfl | hc
    · decide
    rcases List.mem_append.mp hc with hc | hc
    · obtain ⟨d, -, hc⟩ := List.mem_flatMap.mp hc
      exact inline_of_mem_literalChar hc
    · obtain rfl := List.mem_singleton.mp hc
      decide
  · cases before with
    | nil => simp [escaping]
    | cons d before =>
      rw [List.cons_append] at h
      obtain ⟨rfl, htail⟩ := List.cons.inj h
      have hquote : escaping ['\''] = false := rfl
      -- the last quote closes the literal, one before it comes from a character of the text
      rcases List.eq_nil_or_concat after with rfl | ⟨after, d, rfl⟩
      · obtain ⟨rfl, -⟩ := List.append_inj' htail rfl
        have hclosed : escaping (['\''] ++ s.toList.flatMap literalChar) = false :=
          escaping_append_flatMap hquote
        rw [List.singleton_append] at hclosed
        simp [hclosed]
      · rw [List.concat_eq_append, ← List.cons_append, ← List.append_assoc] at htail
        have hopen := escaping_of_flatMap hquote (List.append_inj' htail rfl).1
        rw [List.singleton_append] at hopen
        simp [hopen]
  · rw [List.cons_append, List.append_assoc, List.singleton_append, quoted?, textBody?_flatMap]

/-- The literal of a text starts with one quote, unless there is nothing before the other one. -/
theorem head?_literal (hrest : ∀ c ∈ rest.head?, c ≠ '\'') :
    ∀ tail, cs.flatMap literalChar ++ '\'' :: rest ≠ '\'' :: '\'' :: tail := by
  intro tail he
  cases cs with
  | nil =>
    obtain rfl := (List.cons.inj he).2
    exact hrest '\'' rfl rfl
  | cons c cs =>
    rw [List.flatMap_cons, List.append_assoc] at he
    unfold literalChar at he
    split at he
    any_goals cases he
    rename_i hquote _ _ _
    exact hquote (List.cons.inj he).1

/-- The literal of a text is one token, which stands for that text, unless a quote follows. -/
theorem reads_textLiteral (s : String) : Reads (· ≠ '\'') (textLiteral s) [.text s] := by
  intro rest hrest
  unfold textLiteral
  rw [String.toList_ofList, List.cons_append, List.append_assoc]
  refine tokens_of_token? ?_ (by decide)
  simp only [token?, if_true]
  unfold text?
  split
  · rename_i tail he
    exact (head?_literal hrest tail he).elim
  · rw [List.singleton_append, textBody?_flatMap, Option.map_some]
    dsimp only
    rw [String.ofList_toList]

private theorem opens_digits {cs : List Char} (hne : cs ≠ []) (h : ∀ c ∈ cs, c.isDigit) :
    Opens (fun c => c.isDigit) (String.ofList cs) := by
  obtain ⟨c, cs, rfl⟩ := List.exists_cons_of_ne_nil hne
  exact ⟨c, by simp, h c List.mem_cons_self⟩

theorem opens_toString (n : Nat) : Opens (fun c => c.isDigit) (toString n) := by
  rw [Nat.toString_eq_ofList_toDigits]
  exact opens_digits Nat.toDigits_ne_nil fun c => isDigit_of_mem_toDigits

theorem reads_toString (n : Nat) : Reads EndsNumber (toString n) [.integer n] := by
  have hr := reads_integer (fun c => isDigit_of_mem_toDigits) (Nat.toDigits_ne_nil (n := n)) fun h => by
    rw [Nat.ofDigitChars_ten_toDigits, head?_toDigits h]
  rwa [Nat.ofDigitChars_ten_toDigits, ← Nat.toString_eq_ofList_toDigits] at hr

theorem opens_positional (d : Decimal) : Opens (fun c => c.isDigit) (String.ofList d.positional) := by
  have hne : d.figures ≠ [] := Nat.toDigits_ne_nil
  have hfigures : Opens (fun c => c.isDigit) (String.ofList d.figures) :=
    opens_digits hne fun c => isDigit_of_mem_toDigits
  unfold Decimal.positional
  dsimp only
  split
  · rw [String.ofList_append]
    exact hfigures.append
  · split
    · rw [String.ofList_append]
      refine (opens_digits ?_ fun c hc => isDigit_of_mem_toDigits (List.mem_of_mem_take hc)).append
      simp
      omega
    · exact ⟨'0', by simp, by decide⟩

/-- The token of a decimal whose digits are all written out. -/
def positionalToken (d : Decimal) : Token :=
  if 0 ≤ d.exponent then .integer (d.digits * 10 ^ d.exponent.toNat)
  else .decimal d.digits (-d.exponent).toNat

theorem reads_positional (d : Decimal) :
    Reads EndsNumber (String.ofList d.positional) [positionalToken d] := by
  have hdigit (c : Char) (hc : c ∈ d.figures) : c.isDigit := isDigit_of_mem_toDigits hc
  have hvalue : Nat.ofDigitChars 10 d.figures 0 = d.digits := Nat.ofDigitChars_ten_toDigits
  have hne : d.figures ≠ [] := Nat.toDigits_ne_nil
  unfold Decimal.positional positionalToken
  dsimp only
  split
  · have hall : ∀ c ∈ d.figures ++ List.replicate d.exponent.toNat '0', c.isDigit := by
      intro c hc
      rcases List.mem_append.mp hc with hc | hc
      · exact hdigit c hc
      · exact isDigit_of_mem_zeros hc
    have hnum : Nat.ofDigitChars 10 (d.figures ++ List.replicate d.exponent.toNat '0') 0 =
        d.digits * 10 ^ d.exponent.toNat := by
      rw [Nat.ofDigitChars_append, Nat.ofDigitChars_replicate_zero, hvalue, Nat.mul_comm]
    rw [← hnum]
    refine reads_integer hall (by simp [hne]) fun hzero => ?_
    rw [List.head?_append_of_ne_nil _ hne] at hzero
    rw [hnum, head?_toDigits hzero, Nat.zero_mul]
  · generalize (-d.exponent).toNat = places
    split
    · have htake (c : Char) (hc : c ∈ d.figures.take (d.figures.length - places)) : c.isDigit :=
        hdigit c (List.mem_of_mem_take hc)
      have hdrop (c : Char) (hc : c ∈ d.figures.drop (d.figures.length - places)) : c.isDigit :=
        hdigit c (List.mem_of_mem_drop hc)
      have hr := reads_decimal htake (by simp [hne]; omega) hdrop
      rw [List.take_append_drop, hvalue, List.length_drop] at hr
      rwa [show d.figures.length - (d.figures.length - places) = places by omega] at hr
    · have hzero (c : Char) (hc : c ∈ ['0']) : c.isDigit := by
        rw [List.mem_singleton.mp hc]
        decide
      have hplaces (c : Char)
          (hc : c ∈ List.replicate (places - d.figures.length) '0' ++ d.figures) : c.isDigit := by
        rcases List.mem_append.mp hc with hc | hc
        · exact isDigit_of_mem_zeros hc
        · exact hdigit c hc
      have hr := reads_decimal hzero (by simp) hplaces
      have hnone : Nat.ofDigitChars 10 ['0'] 0 = 0 := by decide
      rw [List.length_append, List.length_replicate,
        show places - d.figures.length + d.figures.length = places by omega,
        ← List.append_assoc, Nat.ofDigitChars_append, Nat.ofDigitChars_append, hnone,
        Nat.ofDigitChars_replicate_zero, Nat.mul_zero, hvalue] at hr
      exact hr

def Digits (code : String) : Prop := code.toList ≠ [] ∧ ∀ c ∈ code.toList, c.isDigit

theorem digits_toString (n : Nat) : Digits (toString n) := by
  rw [Nat.toString_eq_ofList_toDigits, Digits, String.toList_ofList]
  exact ⟨Nat.toDigits_ne_nil, fun c => isDigit_of_mem_toDigits⟩

/-- Without places there is no point. -/
theorem digits_positional (h : 0 ≤ d.exponent) : Digits (String.ofList d.positional) := by
  unfold Digits Decimal.positional
  dsimp only
  rw [if_pos h, String.toList_ofList]
  refine ⟨List.append_ne_nil_of_left_ne_nil Nat.toDigits_ne_nil _, List.forall_mem_append.mpr ⟨?_, ?_⟩⟩
  · exact fun c => isDigit_of_mem_toDigits
  · exact fun c => isDigit_of_mem_zeros

end BlockProgram.Python.Syntax
