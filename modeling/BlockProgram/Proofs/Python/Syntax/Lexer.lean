import Mathlib.Data.List.Basic

/-! The tokens of expressions in the generated language, and how a line is cut into them: the longest
token comes first. Only literals in single quotes, numbers without exponents and names in ASCII are read;
all others end the reading. -/
namespace BlockProgram.Python.Syntax

inductive Token where
  /-- A name or a keyword. -/
  | word (name : String)
  | integer (n : Nat)
  /-- The number `digits / 10 ^ places`, written with a point. -/
  | decimal (digits places : Nat)
  | text (s : String)
  /-- An operator or a delimiter. -/
  | mark (m : String)
  deriving DecidableEq, Repr

/-- The operators and delimiters of the language, the longer ones first. -/
def marks : List String :=
  ["**=", "//=", "<<=", ">>=", "...", "!=", "%=", "&=", "**", "*=", "+=", "-=", "->", "//", "/=", ":=",
    "<<", "<=", "==", ">=", ">>", "@=", "^=", "|=", "!", "%", "&", "(", ")", "*", "+", ",", "-", ".",
    "/", ":", ";", "<", "=", ">", "@", "[", "]", "^", "\x7b", "|", "\x7d", "~"]

def isWordChar (c : Char) : Bool := c.isAlphanum || c = '_'

/-- The character for which an escape stands. -/
def escaped? (c : Char) : Option Char :=
  match c with
  | '\\' => some '\\'
  | '\'' => some '\''
  | 'n' => some '\n'
  | 'r' => some '\r'
  | 't' => some '\t'
  | _ => none

/-- The rest of a text up to its closing quote, and what comes after. -/
def textBody? : List Char → Option (List Char × List Char)
  | [] => none
  | '\'' :: rest => some ([], rest)
  | '\\' :: c :: rest =>
    (escaped? c).bind fun d => (textBody? rest).map fun (s, rest) => (d :: s, rest)
  | '\n' :: _ => none
  | '\r' :: _ => none
  | c :: rest => (textBody? rest).map fun (s, rest) => (c :: s, rest)

/-- A text after its opening quote. Three quotes would open a text of several lines. -/
def text? (cs : List Char) : Option (Token × List Char) :=
  match cs with
  | '\'' :: '\'' :: _ => none
  | cs => (textBody? cs).map fun (s, rest) => (.text (String.ofList s), rest)

/-- A number. An integer has no zeros before other digits. -/
def number? (cs : List Char) : Option (Token × List Char) :=
  let digits := cs.takeWhile Char.isDigit
  match cs.dropWhile Char.isDigit with
  | '.' :: rest =>
    let places := rest.takeWhile Char.isDigit
    some (.decimal (Nat.ofDigitChars 10 (digits ++ places) 0) places.length,
      rest.dropWhile Char.isDigit)
  | rest =>
    let n := Nat.ofDigitChars 10 digits 0
    if digits.head? = some '0' ∧ n ≠ 0 then none else some (.integer n, rest)

/-- A name or a keyword. Before a quote it would be the prefix of a text. -/
def word? (cs : List Char) : Option (Token × List Char) :=
  match cs.dropWhile isWordChar with
  | '\'' :: _ => none
  | rest => some (.word (String.ofList (cs.takeWhile isWordChar)), rest)

def token? : List Char → Option (Token × List Char)
  | [] => none
  | c :: cs =>
    if c = '\'' then text? cs
    else if c.isDigit then number? (c :: cs)
    else if isWordChar c then word? (c :: cs)
    else (marks.find? fun m => m.toList.isPrefixOf (c :: cs)).map fun m =>
      (.mark m, (c :: cs).drop m.toList.length)

/-- The tokens of a line, if there are at most as many as the first argument says. -/
def tokensWithin : Nat → List Char → Option (List Token)
  | _, [] => some []
  | 0, _ :: _ => none
  | n + 1, c :: cs =>
    if c = ' ' then tokensWithin n cs
    else match token? (c :: cs) with
      | none => none
      | some (t, rest) => (tokensWithin n rest).map (t :: ·)

def tokens (cs : List Char) : Option (List Token) := tokensWithin cs.length cs

example : tokens "x1 ** -2.50".toList =
    some [.word "x1", .mark "**", .mark "-", .decimal 250 2] := by decide

variable {c d : Char} {cs rest : List Char} {t : Token} {n : Nat}

def Inline (c : Char) : Prop := c ≠ '\n' ∧ c ≠ '\r'

instance (c : Char) : Decidable (Inline c) := inferInstanceAs (Decidable (_ ∧ _))

private theorem inline_of_isWordChar (h : isWordChar c) : Inline c := by
  constructor <;> rintro rfl <;> cases h

private theorem inline_of_isDigit (h : c.isDigit) : Inline c := by
  constructor <;> rintro rfl <;> cases h

/-- What the token `t` takes from the text `cs`. Only the colon ends in a colon. -/
structure Takes (t : Token) (cs rest used : List Char) : Prop where
  split : cs = used ++ rest
  nonempty : used ≠ []
  inline : ∀ c ∈ used, Inline c
  colon : used.getLast? = some ':' → t = .mark ":"

private theorem getLast?_cons_of (h : cs.getLast? = some d) : (c :: cs).getLast? = some d := by
  rw [List.getLast?_cons, h]
  rfl

private theorem exists_textBody? {s : List Char} (h : textBody? cs = some (s, rest)) :
    ∃ used, cs = used ++ rest ∧ used.getLast? = some '\'' ∧ ∀ c ∈ used, Inline c := by
  induction cs using textBody?.induct generalizing s rest with
  | case1 => simp [textBody?] at h
  | case2 cs =>
    simp only [textBody?, Option.some.injEq, Prod.mk.injEq] at h
    exact ⟨['\''], by simp [h.2], rfl, by simp [Inline]⟩
  | case3 c cs ih =>
    simp only [textBody?] at h
    obtain ⟨d, hd, h⟩ := Option.bind_eq_some_iff.mp h
    obtain ⟨⟨s', rest'⟩, hbody, he⟩ := Option.map_eq_some_iff.mp h
    cases he
    obtain ⟨used, rfl, hlast, hinline⟩ := ih hbody
    have hc : Inline c := by
      constructor <;> rintro rfl <;> cases hd
    refine ⟨'\\' :: c :: used, rfl, getLast?_cons_of (getLast?_cons_of hlast), ?_⟩
    exact List.forall_mem_cons.mpr ⟨by decide, List.forall_mem_cons.mpr ⟨hc, hinline⟩⟩
  | case4 => simp [textBody?] at h
  | case5 => simp [textBody?] at h
  | case6 c cs hquote hslash hline hreturn ih =>
    simp only [textBody?] at h
    obtain ⟨⟨s', rest'⟩, hbody, he⟩ := Option.map_eq_some_iff.mp h
    cases he
    obtain ⟨used, rfl, hlast, hinline⟩ := ih hbody
    refine ⟨c :: used, rfl, getLast?_cons_of hlast, List.forall_mem_cons.mpr ⟨⟨?_, ?_⟩, hinline⟩⟩
    · exact hline
    · exact hreturn

private theorem exists_takes_of_run {p : Char → Bool} (more : List Char) (hc : p c)
    (hp : ∀ d, p d → Inline d ∧ d ≠ ':')
    (hmore : ∀ d ∈ more, Inline d ∧ d ≠ ':') (hrest : (c :: cs).dropWhile p = more ++ rest) :
    ∃ used, Takes t (c :: cs) rest used := by
  have hused : ∀ d ∈ (c :: cs).takeWhile p ++ more, Inline d ∧ d ≠ ':' := by
    intro d hd
    rcases List.mem_append.mp hd with hd | hd
    · exact hp d (List.all_eq_true.mp List.all_takeWhile d hd)
    · exact hmore d hd
  refine ⟨(c :: cs).takeWhile p ++ more, ?_, ?_, fun d hd => (hused d hd).1, fun hlast => ?_⟩
  · rw [List.append_assoc, ← hrest, List.takeWhile_append_dropWhile]
  · rw [List.takeWhile_cons_of_pos hc]
    nofun
  · exact ((hused ':' (List.mem_of_getLast? hlast)).2 rfl).elim

private theorem exists_takes_text (h : text? cs = some (t, rest)) :
    ∃ used, Takes t ('\'' :: cs) rest used := by
  unfold text? at h
  split at h
  · cases h
  · obtain ⟨⟨s, rest'⟩, hbody, he⟩ := Option.map_eq_some_iff.mp h
    cases he
    obtain ⟨used, rfl, hlast, hinline⟩ := exists_textBody? hbody
    refine ⟨'\'' :: used, rfl, List.cons_ne_nil _ _, ?_, fun he => ?_⟩
    · exact List.forall_mem_cons.mpr ⟨by decide, hinline⟩
    · cases (getLast?_cons_of hlast).symm.trans he

private theorem exists_takes_number (hc : c.isDigit) (h : number? (c :: cs) = some (t, rest)) :
    ∃ used, Takes t (c :: cs) rest used := by
  have hdigit (d : Char) (hd : d.isDigit) : Inline d ∧ d ≠ ':' :=
    ⟨inline_of_isDigit hd, by rintro rfl; cases hd⟩
  unfold number? at h
  dsimp only at h
  split at h
  · rename_i rest' he
    cases h
    refine exists_takes_of_run ('.' :: rest'.takeWhile Char.isDigit) hc hdigit ?_ ?_
    · exact List.forall_mem_cons.mpr
        ⟨by decide, fun d hd => hdigit d (List.all_eq_true.mp List.all_takeWhile d hd)⟩
    · rw [he, List.cons_append, List.takeWhile_append_dropWhile]
  · split at h
    · cases h
    · cases h
      exact exists_takes_of_run [] hc hdigit (by simp) rfl

private theorem exists_takes_word (hc : isWordChar c) (h : word? (c :: cs) = some (t, rest)) :
    ∃ used, Takes t (c :: cs) rest used := by
  have hword (d : Char) (hd : isWordChar d) : Inline d ∧ d ≠ ':' :=
    ⟨inline_of_isWordChar hd, by rintro rfl; cases hd⟩
  unfold word? at h
  split at h
  · cases h
  · cases h
    exact exists_takes_of_run [] hc hword (by simp) rfl

private theorem takes_mark {m : String} (hm : m ∈ marks) (hstart : m.toList <+: cs) :
    Takes (.mark m) cs (cs.drop m.toList.length) m.toList := by
  have hall : ∀ m ∈ marks, m.toList ≠ [] ∧ m.toList.all (fun c => Inline c) = true ∧
      (m.toList.getLast? = some ':' → m = ":") := by decide
  obtain ⟨hne, hinline, hcolon⟩ := hall m hm
  obtain ⟨after, rfl⟩ := hstart
  refine ⟨?_, hne, by simpa using hinline, fun hlast => congrArg Token.mark (hcolon hlast)⟩
  rw [List.drop_left]

private theorem exists_takes (h : token? cs = some (t, rest)) : ∃ used, Takes t cs rest used := by
  cases cs with
  | nil => cases h
  | cons c cs =>
    simp only [token?] at h
    split at h
    · rename_i hquote
      exact hquote ▸ exists_takes_text h
    · split at h
      · rename_i hc
        exact exists_takes_number hc h
      · split at h
        · rename_i hc
          exact exists_takes_word hc h
        · obtain ⟨m, hm, he⟩ := Option.map_eq_some_iff.mp h
          cases he
          exact ⟨_, takes_mark (List.mem_of_find?_eq_some hm) (by simpa using List.find?_some hm)⟩

private theorem length_token? (h : token? cs = some (t, rest)) : rest.length < cs.length := by
  obtain ⟨used, rfl, hne, -, -⟩ := exists_takes h
  have := List.length_pos_of_ne_nil hne
  rw [List.length_append]
  omega

private theorem tokensWithin_eq (h : cs.length ≤ n) : tokensWithin n cs = tokens cs := by
  suffices hall : ∀ k (cs : List Char), cs.length ≤ k → ∀ n m, cs.length ≤ n → cs.length ≤ m →
      tokensWithin n cs = tokensWithin m cs from
      hall _ cs (Nat.le_refl _) _ _ h (Nat.le_refl _)
  intro k
  induction k with
  | zero =>
    intro cs hk n m _ _
    obtain rfl := List.length_eq_zero_iff.mp (Nat.le_zero.mp hk)
    cases n <;> cases m <;> rfl
  | succ k ih =>
    intro cs hk n m hn hm
    cases cs with
    | nil => cases n <;> cases m <;> rfl
    | cons c cs =>
      rw [List.length_cons] at hk hn hm
      obtain ⟨n, rfl⟩ := Nat.exists_eq_add_one_of_ne_zero (n := n) (by omega)
      obtain ⟨m, rfl⟩ := Nat.exists_eq_add_one_of_ne_zero (n := m) (by omega)
      simp only [Nat.add_le_add_iff_right] at hk hn hm
      unfold tokensWithin
      split
      · exact ih cs hk n m hn hm
      · cases ht : token? (c :: cs) with
        | none => rfl
        | some result =>
          obtain ⟨t, rest⟩ := result
          have hlt := length_token? ht
          rw [List.length_cons] at hlt
          exact congrArg (Option.map (t :: ·))
            (ih rest (by omega) n m (by omega) (by omega))

@[simp] theorem tokens_nil : tokens [] = some [] := rfl

@[simp] theorem tokens_blank : tokens (' ' :: cs) = tokens cs := by
  change tokensWithin (cs.length + 1) (' ' :: cs) = _
  unfold tokensWithin
  exact tokensWithin_eq (Nat.le_refl _)

private theorem tokens_cons (hc : c ≠ ' ') : tokens (c :: cs) =
    (token? (c :: cs)).bind fun (t, rest) => (tokens rest).map (t :: ·) := by
  change tokensWithin (cs.length + 1) (c :: cs) = _
  unfold tokensWithin
  rw [if_neg hc]
  cases ht : token? (c :: cs) with
  | none => rfl
  | some result =>
    obtain ⟨t, rest⟩ := result
    have hlt := length_token? ht
    rw [List.length_cons] at hlt
    exact congrArg (Option.map (t :: ·)) (tokensWithin_eq (by omega))

theorem tokens_of_token? (h : token? (c :: cs) = some (t, rest)) (hc : c ≠ ' ') :
    tokens (c :: cs) = (tokens rest).map (t :: ·) := by
  rw [tokens_cons hc, h]
  rfl

/-- A text that is read is made of blanks and of what its tokens take. -/
theorem tokens_induction {P : List Char → List Token → Prop} (hnil : P [] [])
    (hblank : ∀ cs ts, P cs ts → P (' ' :: cs) ts)
    (htoken : ∀ cs rest used t ts, Takes t cs rest used → tokens rest = some ts → P rest ts →
      P cs (t :: ts))
    {ts : List Token} (h : tokens cs = some ts) : P cs ts := by
  induction hn : cs.length using Nat.strongRecOn generalizing cs ts with
  | _ n ih =>
    cases cs with
    | nil =>
      cases h
      exact hnil
    | cons c cs =>
      rw [List.length_cons] at hn
      by_cases hc : c = ' '
      · subst hc
        rw [tokens_blank] at h
        exact hblank cs ts (ih cs.length (by omega) h rfl)
      · rw [tokens_cons hc] at h
        obtain ⟨⟨t, rest⟩, ht, h⟩ := Option.bind_eq_some_iff.mp h
        obtain ⟨ts, hts, rfl⟩ := Option.map_eq_some_iff.mp h
        have hlt := length_token? ht
        obtain ⟨used, htakes⟩ := exists_takes ht
        rw [List.length_cons] at hlt
        exact htoken _ rest used t ts htakes hts (ih rest.length (by omega) hts rfl)

/-- What is read is part of one line. -/
theorem inline_of_tokens {ts : List Token} (h : tokens cs = some ts) : ∀ c ∈ cs, Inline c := by
  refine tokens_induction (P := fun cs _ => ∀ c ∈ cs, Inline c) (by simp) (fun cs ts ih => ?_)
    (fun cs rest used t ts htakes _ ih => ?_) h
  · exact List.forall_mem_cons.mpr ⟨by decide, ih⟩
  · rw [htakes.split]
    exact List.forall_mem_append.mpr ⟨htakes.inline, ih⟩

/-- A text that ends in a colon ends in the token of the colon. -/
theorem colon_of_tokens {ts : List Token} (h : tokens cs = some ts) :
    cs.getLast? = some ':' → ts.getLast? = some (.mark ":") := by
  refine tokens_induction (P := fun cs ts => cs.getLast? = some ':' →
    ts.getLast? = some (.mark ":")) nofun (fun cs ts ih hlast => ?_)
    (fun cs rest used t ts htakes hts ih hlast => ?_) h
  · cases cs with
    | nil => cases hlast
    | cons c cs => exact ih hlast
  · rw [htakes.split, List.getLast?_append] at hlast
    cases hrest : rest.getLast? with
    | none =>
      rw [hrest] at hlast
      obtain rfl := htakes.colon hlast
      obtain rfl := List.getLast?_eq_none_iff.mp hrest
      cases hts
      rfl
    | some d =>
      rw [hrest] at hlast
      cases hlast
      rw [List.getLast?_cons, ih hrest]
      rfl

/-- Before anything that starts as `follow` allows, `code` is read as `ts`. -/
def Reads (follow : Char → Prop) (code : String) (ts : List Token) : Prop :=
  ∀ rest, (∀ c ∈ rest.head?, follow c) → tokens (code.toList ++ rest) = (tokens rest).map (ts ++ ·)

/-- The piece is not empty, and starts with a character that `follow` allows. -/
def Opens (follow : Char → Prop) (code : String) : Prop := ∃ c ∈ code.toList.head?, follow c

variable {follow follow' : Char → Prop} {code code' : String} {ts ts' : List Token}

instance [DecidablePred follow] : Decidable (Opens follow code) :=
  decidable_of_iff (code.toList.head?.any fun c => decide (follow c)) (by simp [Opens, Option.any_eq_true])

theorem Opens.mono (h : Opens follow code) (hf : ∀ c, follow c → follow' c) :
    Opens follow' code := by
  obtain ⟨c, hc, hcf⟩ := h
  exact ⟨c, hc, hf c hcf⟩

theorem Opens.append (h : Opens follow code) : Opens follow (code ++ code') := by
  obtain ⟨c, hc, hcf⟩ := h
  refine ⟨c, ?_, hcf⟩
  rw [String.toList_append, List.head?_append, Option.mem_def.mp hc]
  rfl

namespace Reads

theorem mono (h : Reads follow code ts) (hf : ∀ c, follow' c → follow c) : Reads follow' code ts :=
  fun rest hrest => h rest fun c hc => hf c (hrest c hc)

/-- Two texts in a row are read as the tokens of both, if the second one starts as the first one
wants. -/
theorem append (h : Reads follow code ts) (h' : Reads follow' code' ts')
    (ho : Opens follow code') : Reads follow' (code ++ code') (ts ++ ts') := by
  intro rest hrest
  obtain ⟨c, hc, hcf⟩ := ho
  have hhead : ∀ d ∈ (code'.toList ++ rest).head?, follow d := by
    rw [List.head?_append, Option.mem_def.mp hc]
    rintro d hd
    cases hd
    exact hcf
  rw [String.toList_append, List.append_assoc, h _ hhead, h' rest hrest, Option.map_map]
  congr 1
  funext us
  simp

/-- Read to its end. -/
theorem tokens_eq (h : Reads follow code ts) : tokens code.toList = some ts := by
  have hend := h [] (by simp)
  simpa using hend

theorem blank : Reads follow " " [] := by
  intro rest _
  change tokens (' ' :: rest) = _
  simp

end Reads

/-- The characters that would make a longer one of an operator or delimiter. -/
def longer (m : String) : List Char :=
  marks.filterMap fun m' =>
    if m.toList.isPrefixOf m'.toList then (m'.toList.drop m.toList.length).head? else none

private theorem find?_marks {m : String} (hm : m ∈ marks) (hrest : ∀ c ∈ rest.head?, c ∉ longer m) :
    (marks.find? fun m' => m'.toList.isPrefixOf (m.toList ++ rest)) = some m := by
  obtain ⟨before, after, hsplit⟩ := List.append_of_mem hm
  refine List.find?_eq_some_iff_append.mpr ⟨by simp, before, after, hsplit, fun m' hm' => ?_⟩
  have hsorted : marks.Pairwise fun a b => b.toList.length ≤ a.toList.length ∧ a ≠ b := by
    decide +kernel
  rw [hsplit] at hsorted
  obtain ⟨hlength, hne⟩ := (List.pairwise_append.mp hsorted).2.2 m' hm' m List.mem_cons_self
  by_contra hmatch
  have hmatch : m'.toList <+: m.toList ++ rest := by simpa using hmatch
  have hshort : m.toList <+: m'.toList :=
    List.prefix_of_prefix_length_le (List.prefix_append _ _) hmatch hlength
  obtain ⟨tail, htail⟩ := hshort
  cases tail with
  | nil => exact hne (String.toList_inj.mp (by rw [← htail, List.append_nil]))
  | cons c tail =>
    rw [← htail, List.prefix_append_right_inj] at hmatch
    obtain ⟨rest', rfl⟩ := hmatch
    refine hrest c rfl (List.mem_filterMap.mpr ⟨m', hsplit ▸ List.mem_append_left _ hm', ?_⟩)
    simp [← htail]

theorem reads_mark {m : String} (hm : m ∈ marks) : Reads (· ∉ longer m) m [.mark m] := by
  intro rest hrest
  have hstart : ∀ m ∈ marks, Opens (fun c => c ≠ ' ' ∧ c ≠ '\'' ∧ c.isDigit = false ∧
      isWordChar c = false) m := by decide
  obtain ⟨c, hc, hblank, hquote, hdigit, hword⟩ := hstart m hm
  obtain ⟨cs, hcs⟩ := List.head?_eq_some_iff.mp hc
  have ht : token? (m.toList ++ rest) = some (.mark m, rest) := by
    have hfind := find?_marks hm hrest
    rw [hcs, List.cons_append] at hfind ⊢
    simp only [token?, hquote, hdigit, hword, hfind, if_false, Bool.false_eq_true, Option.map_some]
    simp [hcs]
  rw [hcs, List.cons_append] at ht ⊢
  rw [tokens_of_token? ht hblank]
  rfl

/-- The text is one word, a name or a keyword. -/
structure Word (name : String) : Prop where
  opens : Opens (fun c => c.isDigit = false) name
  chars : ∀ c ∈ name.toList, isWordChar c

instance (name : String) : Decidable (Word name) :=
  decidable_of_iff (Opens (fun c => c.isDigit = false) name ∧ name.toList.all isWordChar)
    ⟨fun ⟨opens, chars⟩ => ⟨opens, List.all_eq_true.mp chars⟩,
      fun ⟨opens, chars⟩ => ⟨opens, List.all_eq_true.mpr chars⟩⟩

/-- The rest of a line at which a run of characters ends. -/
theorem span_append {p : Char → Bool} (hcs : ∀ c ∈ cs, p c)
    (hrest : ∀ c ∈ rest.head?, p c = false) :
    (cs ++ rest).takeWhile p = cs ∧ (cs ++ rest).dropWhile p = rest := by
  rw [List.takeWhile_append_of_pos hcs, List.dropWhile_append_of_pos hcs]
  cases rest with
  | nil => simp
  | cons c rest =>
    have hc : ¬ p c = true := by simp [hrest c rfl]
    simp [hc]

/-- A character that ends a name and leaves it one. -/
def EndsWord (c : Char) : Prop := isWordChar c = false ∧ c ≠ '\''

/-- A word is one token, up to a character that cannot be part of it. -/
theorem reads_word {name : String} (h : Word name) : Reads EndsWord name [.word name] := by
  intro rest hrest
  obtain ⟨⟨c, hc, hdigit⟩, hword⟩ := h
  obtain ⟨cs, hcs⟩ := List.head?_eq_some_iff.mp hc
  have hcword : isWordChar c := hword c (by simp [hcs])
  have hblank : c ≠ ' ' := by
    rintro rfl
    exact absurd hcword (by decide)
  have hquote : c ≠ '\'' := by
    rintro rfl
    exact absurd hcword (by decide)
  obtain ⟨htake, hdrop⟩ := span_append hword fun d hd => (hrest d hd).1
  have ht : token? (name.toList ++ rest) = some (.word name, rest) := by
    rw [hcs, List.cons_append] at htake hdrop ⊢
    simp only [token?, hquote, hdigit, hcword, if_false, if_true, Bool.false_eq_true]
    unfold word?
    rw [hdrop, htake, ← hcs, String.ofList_toList]
    split
    · exact absurd rfl (hrest '\'' rfl).2
    · rfl
  rw [hcs, List.cons_append] at ht ⊢
  rw [tokens_of_token? ht hblank]
  rfl

def EndsNumber (c : Char) : Prop := c.isDigit = false ∧ c ≠ '.'

section numbers

variable {digits places : List Char} (hdigits : ∀ c ∈ digits, c.isDigit) (hne : digits ≠ [])
include hdigits hne

private theorem token?_digits (ht : number? (digits ++ rest) = some (t, cs)) :
    tokens (digits ++ rest) = (tokens cs).map (t :: ·) := by
  obtain ⟨d, ds, rfl⟩ := List.exists_cons_of_ne_nil hne
  have hd : d.isDigit := hdigits d List.mem_cons_self
  have hquote : d ≠ '\'' := by
    rintro rfl
    exact absurd hd (by decide)
  refine tokens_of_token? ?_ ?_
  · simp only [token?, hquote, hd, if_false, if_true]
    exact ht
  · rintro rfl
    exact absurd hd (by decide)

/-- Digits are one token, if a leading zero has only zeros behind it. -/
theorem reads_integer (hzero : digits.head? = some '0' → Nat.ofDigitChars 10 digits 0 = 0) :
    Reads EndsNumber (String.ofList digits) [.integer (Nat.ofDigitChars 10 digits 0)] := by
  intro rest hrest
  rw [String.toList_ofList]
  refine token?_digits hdigits hne ?_
  obtain ⟨htake, hdrop⟩ := span_append hdigits fun d hd => (hrest d hd).1
  unfold number?
  rw [htake, hdrop]
  dsimp only
  split
  · exact absurd rfl (hrest '.' rfl).2
  · rw [if_neg fun ⟨h0, hn⟩ => hn (hzero h0)]

/-- Digits that are read at all are read as an integer. -/
theorem tokens_digits (h : tokens digits = some ts) :
    ts = [.integer (Nat.ofDigitChars 10 digits 0)] := by
  by_cases hzero : digits.head? = some '0' ∧ Nat.ofDigitChars 10 digits 0 ≠ 0
  · obtain ⟨d, ds, rfl⟩ := List.exists_cons_of_ne_nil hne
    have hd : d.isDigit := hdigits d List.mem_cons_self
    have hblank : d ≠ ' ' := by
      rintro rfl
      cases hd
    have hquote : d ≠ '\'' := by
      rintro rfl
      cases hd
    have hend : ∀ c ∈ ([] : List Char).head?, c.isDigit = false := nofun
    obtain ⟨htake, hdrop⟩ := span_append hdigits hend
    rw [List.append_nil] at htake hdrop
    have ht : token? (d :: ds) = none := by
      simp only [token?, hquote, hd, if_false, if_true]
      unfold number?
      rw [htake, hdrop]
      exact if_pos hzero
    rw [tokens_cons hblank, ht] at h
    cases h
  · have hreads := reads_integer hdigits hne fun h0 => by_contra fun hn => hzero ⟨h0, hn⟩
    have htokens := hreads.tokens_eq
    rw [String.toList_ofList, h] at htokens
    exact Option.some.inj htokens

theorem reads_decimal (hplaces : ∀ c ∈ places, c.isDigit) :
    Reads EndsNumber (String.ofList (digits ++ '.' :: places))
      [.decimal (Nat.ofDigitChars 10 (digits ++ places) 0) places.length] := by
  intro rest hrest
  rw [String.toList_ofList, List.append_assoc]
  refine token?_digits hdigits hne ?_
  have hpoint : ∀ c ∈ ('.' :: places ++ rest).head?, c.isDigit = false := by simp
  obtain ⟨htake, hdrop⟩ := span_append hdigits hpoint
  obtain ⟨htake', hdrop'⟩ := span_append hplaces fun d hd => (hrest d hd).1
  unfold number?
  rw [htake, hdrop]
  simp only [List.cons_append, htake', hdrop']

end numbers

end BlockProgram.Python.Syntax
