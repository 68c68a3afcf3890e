import BlockProgram.Mutation.State
import BlockProgram.Proofs.Number.Digits
import BlockProgram.Proofs.Text.Mark
import Mathlib.Data.List.Infix

/-! The token of a mutation is read back as that mutation, unless it has too many units or a variant
without a name. Other texts are read as well, those that spell a count in another way; each of them stands for
a mutation whose own token is the canonical one. -/
namespace BlockProgram

namespace Text

variable {mark : Char} {before rest : List Char}

private theorem splitAtFirst?_of_not_mem (h : mark ∉ rest) : splitAtFirst? [mark] rest = none := by
  induction rest with
  | nil => simp [splitAtFirst?, dropHead?]
  | cons c rest ih =>
    obtain ⟨hne, hrest⟩ := not_or.mp (mt List.mem_cons.mpr h)
    simp [splitAtFirst?, dropHead?, hne, ih hrest]

private theorem splitAtFirst?_append (h : mark ∉ before) :
    splitAtFirst? [mark] (before ++ mark :: rest) = some (before, rest) :=
  splitAtFirst?_mark List.not_mem_nil (mt (List.singleton_infix_iff _ _).mp h)

/-- A text is split at the first mark in it. -/
theorem splitAtFirst?_eq_some_iff {cs : List Char} :
    splitAtFirst? [mark] cs = some (before, rest) ↔ cs = before ++ mark :: rest ∧ mark ∉ before := by
  constructor
  · intro h
    by_cases hmark : mark ∈ cs
    · obtain ⟨before', rest', rfl, hbefore⟩ := List.eq_append_cons_of_mem hmark
      rw [splitAtFirst?_append hbefore] at h
      cases h
      exact ⟨rfl, hbefore⟩
    · rw [splitAtFirst?_of_not_mem hmark] at h
      cases h
  · rintro ⟨rfl, hbefore⟩
    exact splitAtFirst?_append hbefore

end Text

namespace Mutation

open Text

variable {n : Nat} {m : Mutation}

/-- The mutations that have a token of their own. -/
def Tokenable : Mutation → Prop
  | .fixed => True
  | .items n => n ≤ maxUnits
  | .branches n _ => n ≤ maxUnits
  | .variant name => name ≠ ""

/-- The texts for mutations, if counts are spelled as `count` says. -/
inductive Spells (count : List Char → Nat → Prop) : String → Mutation → Prop where
  | fixed : Spells count "" .fixed
  | items {digits : List Char} {n : Nat} (hn : count digits n) :
      Spells count ("items:" ++ String.ofList digits) (.items n)
  | branches {digits : List Char} {n : Nat} (hn : count digits n) :
      Spells count ("branches:" ++ String.ofList digits) (.branches n false)
  | branchesElse {digits : List Char} {n : Nat} (hn : count digits n) :
      Spells count ("branches:" ++ String.ofList digits ++ ":else") (.branches n true)
  | variant {name : String} (hname : name ≠ "") : Spells count ("variant:" ++ name) (.variant name)

/-- Decimal digits, one at least, of a number of units that is not too large. -/
structure Counts (digits : List Char) (n : Nat) : Prop where
  nonempty : digits ≠ []
  digit : ∀ c ∈ digits, c.isDigit
  value : Nat.ofDigitChars 10 digits 0 = n
  limit : n ≤ maxUnits

def SignedCount (text : List Char) (n : Nat) : Prop :=
  Counts text n ∨ ∃ digits, text = '+' :: digits ∧ Counts digits n

/-- Digits without a zero before another digit. -/
def CanonicalCount (text : List Char) (n : Nat) : Prop :=
  Counts text n ∧ (text.head? = some '0' → text = ['0'])

/-- The one text for a mutation. -/
def Canonical (token : String) : Prop := ∃ m, Spells CanonicalCount token m

private theorem count?_eq_some_iff {text : List Char} : count? text = some n ↔ SignedCount text n := by
  have hdigits (digits : List Char) : (if digits ≠ [] ∧ digits.all Char.isDigit then
      if Nat.ofDigitChars 10 digits 0 ≤ maxUnits then some (Nat.ofDigitChars 10 digits 0) else none
      else none) = some n ↔ Counts digits n := by
    constructor
    · intro h
      split at h
      · rename_i hd
        split at h
        · rename_i hle
          cases h
          exact ⟨hd.1, List.all_eq_true.mp hd.2, rfl, hle⟩
        · cases h
      · cases h
    · rintro ⟨hne, hd, rfl, hle⟩
      rw [if_pos ⟨hne, List.all_eq_true.mpr hd⟩, if_pos hle]
  unfold count?
  split
  · rename_i digits
    refine (hdigits digits).trans ⟨fun h => .inr ⟨digits, rfl, h⟩, ?_⟩
    rintro (h | ⟨_, ⟨⟩, h⟩)
    · exact absurd (h.digit '+' List.mem_cons_self) (by decide)
    · exact h
  · rename_i hplus
    refine (hdigits text).trans ⟨.inl, ?_⟩
    rintro (h | ⟨digits, rfl, -⟩)
    · exact h
    · exact (hplus digits rfl).elim

private theorem SignedCount.not_mem {text : List Char} (h : SignedCount text n) : ':' ∉ text := by
  have hdigits {digits : List Char} (h : Counts digits n) : ':' ∉ digits :=
    fun hc => absurd (h.digit _ hc) (by decide)
  rcases h with h | ⟨digits, rfl, h⟩
  · exact hdigits h
  · intro hc
    rcases List.mem_cons.mp hc with hc | hc
    · cases hc
    · exact hdigits h hc

private theorem ofList_append (kind : String) (rest : List Char) :
    kind ++ ":" ++ String.ofList rest = String.ofList (kind.toList ++ ':' :: rest) :=
  String.ext (by simp)

private theorem ofToken?_append {kind : String} {rest : List Char} (hkind : ':' ∉ kind.toList) :
    ofToken? (String.ofList (kind.toList ++ ':' :: rest)) =
      if kind.toList = "items".toList then (count? rest).map .items
      else if kind.toList = "branches".toList then
        match splitAtFirst? [':'] rest with
        | some (n, flag) =>
          if flag = "else".toList then (count? n).map (.branches · true) else none
        | none => (count? rest).map (.branches · false)
      else if kind.toList = "variant".toList ∧ rest ≠ [] then some (.variant (String.ofList rest))
      else none := by
  have hne : String.ofList (kind.toList ++ ':' :: rest) ≠ "" := by
    intro he
    simpa using congrArg String.toList he
  unfold ofToken?
  rw [if_neg hne, String.toList_ofList, splitAtFirst?_append hkind]
  simp only [Option.bind_eq_bind, Option.bind_some, Option.map_eq_bind]
  rfl

private theorem spells_branches {rest : List Char}
    (h : (match splitAtFirst? [':'] rest with
      | some (n, flag) => if flag = "else".toList then (count? n).map (.branches · true) else none
      | none => (count? rest).map (.branches · false)) = some m) :
    Spells SignedCount ("branches" ++ ":" ++ String.ofList rest) m := by
  split at h
  · rename_i digits flag hflag
    obtain ⟨rfl, -⟩ := splitAtFirst?_eq_some_iff.mp hflag
    split at h
    · rename_i helse
      obtain ⟨n, hn, rfl⟩ := Option.map_eq_some_iff.mp h
      rw [helse, show "branches" ++ ":" ++ String.ofList (digits ++ ':' :: "else".toList) =
        "branches:" ++ String.ofList digits ++ ":else" from String.ext (by simp)]
      exact .branchesElse (count?_eq_some_iff.mp hn)
    · cases h
  · obtain ⟨n, hn, rfl⟩ := Option.map_eq_some_iff.mp h
    exact .branches (count?_eq_some_iff.mp hn)

private theorem spells_of_ofToken? {t : String} (h : ofToken? t = some m) : Spells SignedCount t m := by
  by_cases ht : t = ""
  · subst ht
    cases h
    exact .fixed
  cases hsplit : splitAtFirst? [':'] t.toList with
  | none =>
    unfold ofToken? at h
    rw [if_neg ht, hsplit] at h
    cases h
  | some parts =>
    obtain ⟨kind, rest⟩ := parts
    obtain ⟨hcs, hkind⟩ := splitAtFirst?_eq_some_iff.mp hsplit
    obtain ⟨kind, rfl⟩ : ∃ k : String, kind = k.toList := ⟨String.ofList kind, by simp⟩
    obtain rfl : t = String.ofList (kind.toList ++ ':' :: rest) := String.ext (by simpa using hcs)
    rw [ofToken?_append hkind] at h
    rw [← ofList_append]
    split at h
    · rename_i he
      obtain rfl := String.toList_injective he
      obtain ⟨n, hn, rfl⟩ := Option.map_eq_some_iff.mp h
      exact .items (count?_eq_some_iff.mp hn)
    split at h
    · rename_i he
      obtain rfl := String.toList_injective he
      exact spells_branches h
    split at h
    · rename_i hvariant
      obtain ⟨he, hne⟩ := hvariant
      obtain rfl := String.toList_injective he
      cases h
      exact .variant fun hname => hne (by simpa using congrArg String.toList hname)
    · cases h

private theorem ofToken?_of_spells {t : String} (h : Spells SignedCount t m) : ofToken? t = some m := by
  cases h with
  | fixed => rfl
  | @items digits n hn =>
    rw [show "items:" ++ String.ofList digits = _ from ofList_append "items" digits,
      ofToken?_append (by decide), if_pos rfl, count?_eq_some_iff.mpr hn]
    rfl
  | @branches digits n hn =>
    rw [show "branches:" ++ String.ofList digits = _ from ofList_append "branches" digits,
      ofToken?_append (by decide), if_neg (by decide), if_pos rfl,
      splitAtFirst?_of_not_mem hn.not_mem]
    dsimp only
    rw [count?_eq_some_iff.mpr hn]
    rfl
  | @branchesElse digits n hn =>
    rw [show "branches:" ++ String.ofList digits ++ ":else" =
        String.ofList ("branches".toList ++ ':' :: (digits ++ ':' :: "else".toList)) from
        String.ext (by simp),
      ofToken?_append (by decide), if_neg (by decide), if_pos rfl, splitAtFirst?_append hn.not_mem]
    dsimp only
    rw [if_pos rfl, count?_eq_some_iff.mpr hn]
    rfl
  | @variant name hname =>
    have hne : name.toList ≠ [] := fun hn => hname (String.ext (by simpa using hn))
    rw [show "variant:" ++ name = String.ofList ("variant".toList ++ ':' :: name.toList) from
        String.ext (by simp),
      ofToken?_append (by decide), if_neg (by decide), if_neg (by decide), if_pos ⟨rfl, hne⟩,
      String.ofList_toList]

/-- A token is read exactly as the grammar has it, with an optional plus sign before counts. -/
theorem ofToken?_eq_some_iff {t : String} : ofToken? t = some m ↔ Spells SignedCount t m :=
  ⟨spells_of_ofToken?, ofToken?_of_spells⟩

private theorem canonicalCount_toDigits (h : n ≤ maxUnits) : CanonicalCount (Nat.toDigits 10 n) n := by
  refine ⟨⟨Nat.toDigits_ne_nil, fun c => isDigit_of_mem_toDigits, Nat.ofDigitChars_ten_toDigits, h⟩, ?_⟩
  intro hzero
  rw [head?_toDigits hzero]
  rfl

private theorem CanonicalCount.toDigits_eq {digits : List Char} (h : CanonicalCount digits n) :
    Nat.toDigits 10 n = digits := by
  rw [← h.1.value]
  exact toDigits_ofDigitChars h.1.nonempty h.1.digit h.2

private theorem spells_token (h : m.Tokenable) : Spells CanonicalCount m.token m := by
  cases m with
  | fixed => exact .fixed
  | items n =>
    simp only [token, Nat.toString_eq_ofList_toDigits]
    exact .items (canonicalCount_toDigits h)
  | branches n hasElse =>
    cases hasElse with
    | true =>
      simp only [token, Nat.toString_eq_ofList_toDigits, if_true]
      exact .branchesElse (canonicalCount_toDigits h)
    | false =>
      simp only [token, Nat.toString_eq_ofList_toDigits, Bool.false_eq_true, if_false,
        String.append_empty]
      exact .branches (canonicalCount_toDigits h)
  | variant name => exact .variant h

theorem Spells.mono {count count' : List Char → Nat → Prop} {t : String} (h : Spells count t m)
    (hle : ∀ digits n, count digits n → count' digits n) : Spells count' t m := by
  cases h with
  | fixed => exact .fixed
  | items hn => exact .items (hle _ _ hn)
  | branches hn => exact .branches (hle _ _ hn)
  | branchesElse hn => exact .branchesElse (hle _ _ hn)
  | variant hname => exact .variant hname

theorem Spells.tokenable {t : String} (h : Spells SignedCount t m) : m.Tokenable := by
  have hlimit {digits : List Char} {n : Nat} (h : SignedCount digits n) : n ≤ maxUnits := by
    rcases h with h | ⟨_, -, h⟩ <;> exact h.limit
  cases h with
  | fixed => trivial
  | items hn => exact hlimit hn
  | branches hn => exact hlimit hn
  | branchesElse hn => exact hlimit hn
  | variant hname => exact hname

/-- A canonical text is the token of the mutation that it stands for. -/
theorem Spells.token_eq {t : String} (h : Spells CanonicalCount t m) : m.token = t := by
  cases h with
  | fixed => rfl
  | items hn => simp only [token, Nat.toString_eq_ofList_toDigits, hn.toDigits_eq]
  | branches hn =>
    simp only [token, Nat.toString_eq_ofList_toDigits, hn.toDigits_eq, Bool.false_eq_true, if_false,
      String.append_empty]
  | branchesElse hn =>
    simp only [token, Nat.toString_eq_ofList_toDigits, hn.toDigits_eq, if_true]
  | variant hname => rfl

/-- The token of a mutation is read back as that mutation. -/
theorem ofToken?_token (h : m.Tokenable) : ofToken? m.token = some m :=
  ofToken?_of_spells ((spells_token h).mono fun _ _ hn => .inl hn.1)

/-- Every mutation within the limits is read back from its token. The texts that are read are those of the
grammar, where a count may have a plus sign and zeros before it. The token of what a text stands for is
canonical, is read as the same mutation, and stays as it is from then on; a text that is canonical itself is
that token. -/
theorem tokens_canonical :
    (∀ m : Mutation, m.Tokenable → ofToken? m.token = some m) ∧
    (∀ t m, ofToken? t = some m ↔ Spells SignedCount t m) ∧
    ∀ t m, ofToken? t = some m → Canonical m.token ∧ ofToken? m.token = some m ∧
      (ofToken? m.token).map token = some m.token ∧ (Canonical t → m.token = t) := by
  refine ⟨fun m => ofToken?_token, fun t m => ofToken?_eq_some_iff, fun t m h => ?_⟩
  have hm : m.Tokenable := (ofToken?_eq_some_iff.mp h).tokenable
  have hround := ofToken?_token hm
  refine ⟨⟨m, spells_token hm⟩, hround, by rw [hround]; rfl, ?_⟩
  rintro ⟨m', hm'⟩
  obtain rfl : m = m' := by
    have h' := ofToken?_of_spells (hm'.mono fun _ _ hn => .inl hn.1)
    exact Option.some.inj (h.symm.trans h')
  exact hm'.token_eq

/-- A count with a sign and zeros, and a variant whose name looks like a token. -/
theorem tokens_canonical_of_signed :
    ofToken? "branches:+0012:else" = some (.branches 12 true) ∧ Canonical "branches:12:else" ∧
    ofToken? "branches:12:else" = some (.branches 12 true) ∧
    Tokenable (.variant "items:3") ∧ ofToken? "variant:items:3" = some (.variant "items:3") := by
  have h : ofToken? "branches:+0012:else" = some (.branches 12 true) := by decide +kernel
  have htoken : (branches 12 true).token = "branches:12:else" := by decide +kernel
  have hname : Tokenable (.variant "items:3") := show "items:3" ≠ "" by decide
  obtain ⟨hcanonical, hround, -⟩ := tokens_canonical.2.2 _ _ h
  rw [htoken] at hcanonical hround
  exact ⟨h, hcanonical, hround, hname, tokens_canonical.1 _ hname⟩

end Mutation

end BlockProgram
