import BlockProgram.Proofs.Python.Syntax.Literal
import BlockProgram.Proofs.Python.Syntax.Grammar
import BlockProgram.Text.Blank

/-! How pieces of text that are read as phrases make up a longer text that is read as a phrase. -/
namespace BlockProgram.Python.Syntax

/-- What comes after an expression. -/
def Closes (c : Char) : Prop := c ∈ [' ', ')', ']', '\x7d', ',', ':']

/-- What comes after an expression of which an element or a member is taken, or that is called. -/
def Joins (c : Char) : Prop := Closes c ∨ c ∈ ['.', '[', '(']

/-- A character that starts an operand: it makes no operator longer, and is no blank. -/
def Leads (c : Char) : Prop := c ≠ '=' ∧ c ≠ '>' ∧ Text.isBlank c = false

instance (c : Char) : Decidable (Closes c) := inferInstanceAs (Decidable (_ ∈ _))

instance (c : Char) : Decidable (Joins c) := inferInstanceAs (Decidable (_ ∨ _))

instance (c : Char) : Decidable (Leads c) := inferInstanceAs (Decidable (_ ∧ _))

/-- The text is read as tokens that have the property `P`. -/
structure Spells (follow : Char → Prop) (P : List Token → Prop) (code : String) : Prop where
  leads : Opens Leads code
  reads : ∃ ts, Reads follow code ts ∧ P ts

/-- The text is read as a phrase of the level. -/
abbrev Phrase (l : Level) (e : Expr) : String → Prop := Spells Closes fun ts => Derives l ts e

/-- The text is read as an expression of which an element or a member can be taken, or that can be
called. -/
abbrev Subject (e : Expr) : String → Prop := Spells Joins fun ts => Derives .primary ts e

variable {follow follow' : Char → Prop} {P Q R : List Token → Prop} {x y sep pre post : String}
  {ps qs : List Token} {t : Token} {m n : String} {e : Expr} {l l' : Level}

namespace Spells

theorem mono (h : Spells follow P x) (hf : ∀ c, follow' c → follow c) (hP : ∀ ts, P ts → Q ts) :
    Spells follow' Q x := by
  obtain ⟨hleads, ts, hreads, hts⟩ := h
  exact ⟨hleads, ts, hreads.mono hf, hP ts hts⟩

/-- A text between two others, one token long. -/
theorem between (h : Spells Closes P x) (hsep : Reads (fun _ => True) sep [t])
    (hopens : Opens Closes sep) (h' : Spells follow Q y)
    (hR : ∀ ts us, P ts → Q us → R (ts ++ t :: us)) : Spells follow R (x ++ sep ++ y) := by
  obtain ⟨hleads, ts, hreads, hts⟩ := h
  obtain ⟨hleads', us, hreads', hus⟩ := h'
  refine ⟨hleads.append.append, ts ++ t :: us, ?_, hR ts us hts hus⟩
  have hall := (hreads.append hsep hopens).append hreads' (hleads'.mono fun _ _ => trivial)
  rwa [List.append_assoc] at hall

theorem before (hpre : Reads Leads pre ps) (hopens : Opens Leads pre) (h : Spells follow P x)
    (hR : ∀ ts, P ts → R (ps ++ ts)) : Spells follow R (pre ++ x) := by
  obtain ⟨hleads, ts, hreads, hts⟩ := h
  exact ⟨hopens.append, ps ++ ts, hpre.append hreads hleads, hR ts hts⟩

/-- Two pieces in a row. -/
theorem append (h : Spells follow P x) (h' : Spells follow' Q y) (hopens : Opens follow y)
    (hR : ∀ ts us, P ts → Q us → R (ts ++ us)) : Spells follow' R (x ++ y) := by
  obtain ⟨hleads, ts, hreads, hts⟩ := h
  obtain ⟨-, us, hreads', hus⟩ := h'
  exact ⟨hleads.append, ts ++ us, hreads.append hreads' hopens, hR ts us hts hus⟩

end Spells

def openings : List String := ["(", "[", "\x7b"]

def closings : List String := [")", "]", "\x7d"]

private theorem reads_bracket (hm : m ∈ openings ++ closings) : Reads follow m [.mark m] := by
  have hmarks : ∀ m ∈ openings ++ closings, m ∈ marks ∧ longer m = [] := by decide
  refine (reads_mark (hmarks m hm).1).mono fun c _ => ?_
  simp [(hmarks m hm).2]

/-- What stands between brackets: a piece of text, or nothing at all. -/
def Inner (P : List Token → Prop) (code : String) : Prop := (code = "" ∧ P []) ∨ Spells Closes P code

/-- Brackets end themselves, whatever comes after them. -/
theorem Inner.spells (h : Inner P x) (hm : m ∈ openings) (hn : n ∈ closings)
    (hR : ∀ ts, P ts → R (.mark m :: (ts ++ [.mark n]))) : Spells follow R (m ++ x ++ n) := by
  have hleads : ∀ m ∈ openings, Opens Leads m := by decide
  have hcloses : ∀ n ∈ closings, Opens (fun c => Leads c ∧ Closes c) n := by decide
  have hpre {follow : Char → Prop} : Reads follow m [.mark m] :=
    reads_bracket (List.mem_append_left _ hm)
  have hpost : Reads follow n [.mark n] := reads_bracket (List.mem_append_right _ hn)
  have hopens := hcloses n hn
  refine ⟨(hleads m hm).append.append, ?_⟩
  obtain ⟨rfl, hP⟩ | ⟨hinner, ts, hreads, hts⟩ := h
  · rw [String.append_empty]
    exact ⟨_, hpre.append hpost hopens, hR [] hP⟩
  · refine ⟨_, (hpre.append hreads hinner).append hpost (hopens.mono fun _ hc => hc.2), ?_⟩
    exact hR ts hts

private theorem reads_comma : Reads follow ", " [.mark ","] := by
  have h : Reads (fun _ => True) "," [.mark ","] :=
    (reads_mark (by decide)).mono fun c _ => by simp [show longer "," = [] by decide]
  exact h.append .blank ⟨' ', rfl, trivial⟩

private theorem reads_colon : Reads follow ": " [.mark ":"] :=
  (reads_mark (m := ":") (by decide)).append .blank ⟨' ', rfl, by decide⟩

theorem reads_operator (hm : m ∈ marks) (hblank : ' ' ∉ longer m) :
    Reads follow (" " ++ m ++ " ") [.mark m] := by
  have h : Reads follow (m ++ " ") [.mark m] := (reads_mark hm).append .blank ⟨' ', rfl, hblank⟩
  have hstart : ∀ m ∈ marks, Opens (fun _ => True) m := by decide
  rw [String.append_assoc]
  exact Reads.blank.append h (hstart m hm).append

theorem endsWord_of_joins {c : Char} (h : Joins c) : EndsWord c := by
  have hall : [' ', ')', ']', '\x7d', ',', ':', '.', '[', '('].all
      fun c => !isWordChar c && c ≠ '\'' := by decide
  have hc : !isWordChar c && c ≠ '\'' := List.all_eq_true.mp hall c (List.mem_append.mpr h)
  simpa [EndsWord] using hc

theorem endsNumber_of_closes {c : Char} (h : Closes c) : EndsNumber c := by
  have hall : [' ', ')', ']', '\x7d', ',', ':'].all fun c => !c.isDigit && c ≠ '.' := by decide
  have hc : !c.isDigit && c ≠ '.' := List.all_eq_true.mp hall c h
  simpa [EndsNumber] using hc

theorem reads_keyword (hn : Word n) : Reads follow (" " ++ n ++ " ") [.word n] := by
  have h : Reads follow (n ++ " ") [.word n] :=
    (reads_word hn).append .blank ⟨' ', rfl, by decide, by decide⟩
  rw [String.append_assoc]
  exact Reads.blank.append h (hn.opens.mono (fun _ _ => trivial)).append

section items

variable {xs : List Expr} {texts : List String} {ts us : List Token} {x : Expr}

theorem Items.single (h : Derives .disjunction ts x) : Items ts [x] := by
  have hi := Items.cons h .nil
  rwa [List.append_nil] at hi

private theorem Items.prepend (h : Derives .disjunction ts x) (hi : Items us xs) (hne : xs ≠ []) :
    Items (ts ++ .mark "," :: us) (x :: xs) := by
  cases hi with
  | nil => exact (hne rfl).elim
  | cons hy hl => exact .cons h (.cons (List.mem_singleton_self ",") hy hl)

private theorem spells_items (h : List.Forall₂ (Phrase .disjunction) xs texts) (hne : xs ≠ []) :
    Spells Closes (Items · xs) (Text.join ", " texts) := by
  induction h with
  | nil => exact (hne rfl).elim
  | @cons x text xs texts hx h ih =>
    cases h with
    | nil => exact hx.mono (fun _ h => h) fun ts => .single
    | cons hy h =>
      exact Spells.between hx reads_comma ⟨',', rfl, by decide⟩ (ih (by simp))
        fun ts us hx hxs => Items.prepend hx hxs (by simp)

private theorem inner_items (h : List.Forall₂ (Phrase .disjunction) xs texts) :
    Inner (Items · xs) (Text.join ", " texts) := by
  cases h with
  | nil => exact .inl ⟨rfl, .nil⟩
  | cons hx h => exact .inr (spells_items (.cons hx h) (by simp))

/-- The text of an entry: a key, a colon and a value. -/
def EntrySpelled (entry : Expr × Expr) (text : String) : Prop :=
  ∃ key value, text = key ++ ": " ++ value ∧ Phrase .disjunction entry.1 key ∧
    Phrase .disjunction entry.2 value

private theorem spells_entries {entries : List (Expr × Expr)} (h : List.Forall₂ EntrySpelled entries texts)
    (hne : entries ≠ []) : Spells Closes (Entries · entries) (Text.join ", " texts) := by
  induction h with
  | nil => exact (hne rfl).elim
  | @cons entry text entries texts hx h ih =>
    obtain ⟨key, value, rfl, hkey, hvalue⟩ := hx
    have hentry : Spells Closes (fun us => ∃ ks vs, us = ks ++ .mark ":" :: vs ∧
        Derives .disjunction ks entry.1 ∧ Derives .disjunction vs entry.2) (key ++ ": " ++ value) :=
      hkey.between reads_colon ⟨':', rfl, by decide⟩ hvalue
        fun ks vs hk hv => ⟨ks, vs, rfl, hk, hv⟩
    cases h with
    | nil =>
      refine hentry.mono (fun _ h => h) ?_
      rintro _ ⟨ks, vs, rfl, hk, hv⟩
      exact .single hk hv
    | cons hy h =>
      refine Spells.between hentry reads_comma ⟨',', rfl, by decide⟩ (ih (by simp)) ?_
      rintro _ us ⟨ks, vs, rfl, hk, hv⟩ hes
      rw [List.append_assoc, List.cons_append]
      exact .cons hk hv hes (by simp)

private theorem inner_entries {entries : List (Expr × Expr)} (h : List.Forall₂ EntrySpelled entries texts) :
    Inner (Entries · entries) (Text.join ", " texts) := by
  cases h with
  | nil => exact .inl ⟨rfl, .nil⟩
  | cons hx h => exact .inr (spells_entries (.cons hx h) (by simp))

end items

theorem Phrase.loosen (h : Phrase l' e x) (hle : l.index ≤ l'.index) : Phrase l e x :=
  h.mono (fun _ hc => hc) fun _ hd => hd.loosenTo hle

/-- A phrase of any level is read as an expression by itself. -/
theorem Phrase.parses (h : Phrase l e x) : Parses x e := by
  obtain ⟨-, ts, hreads, hts⟩ := h
  exact ⟨ts, hreads.tokens_eq, hts.loosenTo (Nat.zero_le _)⟩

theorem Subject.phrase (h : Subject e x) : Phrase .primary e x :=
  h.mono (fun _ hc => .inl hc) fun _ hd => hd

theorem subject_of_atom (h : Spells Joins (fun ts => Derives .atom ts e) x) : Subject e x :=
  h.mono (fun _ hc => hc) fun _ hd => .loosen rfl hd

theorem spells_group (h : Phrase .disjunction e x) :
    Spells follow (fun ts => Derives .atom ts e) ("(" ++ x ++ ")") :=
  Inner.spells (.inr h) (by decide) (by decide) fun _ => .group

section literals

private theorem isBlank_of_isWordChar {c : Char} (h : isWordChar c) : Text.isBlank c = false := by
  have hrange : (48 ≤ c.toNat ∧ c.toNat ≤ 57) ∨ (65 ≤ c.toNat ∧ c.toNat ≤ 95) ∨
      (97 ≤ c.toNat ∧ c.toNat ≤ 122) := by
    unfold isWordChar Char.isAlphanum Char.isAlpha Char.isUpper Char.isLower Char.isDigit at h
    simp only [Bool.or_eq_true, Bool.and_eq_true, decide_eq_true_eq, UInt32.le_iff_toNat_le,
      ge_iff_le] at h
    obtain ((h | h) | h) | rfl := h
    · exact .inr (.inl ⟨h.1, Nat.le_trans h.2 (by decide)⟩)
    · exact .inr (.inr h)
    · exact .inl h
    · exact .inr (.inl (by decide))
  simp only [Text.isBlank, Bool.or_eq_false_iff, Bool.and_eq_false_iff, decide_eq_false_iff_not]
  omega

private theorem leads_of_isWordChar {c : Char} (h : isWordChar c) : Leads c := by
  refine ⟨?_, ?_, isBlank_of_isWordChar h⟩ <;> rintro rfl <;> cases h

theorem leads_of_digit {c : Char} (h : c.isDigit) : Leads c := by
  refine leads_of_isWordChar ?_
  simp [isWordChar, Char.isAlphanum, h]

theorem leads_word (h : Word n) : Opens Leads n := by
  obtain ⟨c, hc, -⟩ := h.opens
  exact ⟨c, hc, leads_of_isWordChar (h.chars c (List.mem_of_head? hc))⟩

private theorem spells_word (h : Word n) (hP : P [.word n]) : Spells EndsWord P n :=
  ⟨leads_word h, _, reads_word h, hP⟩

theorem subject_name (h : Proper n) : Subject (.name n) n :=
  (spells_word h.word (.loosen rfl (.name h.name))).mono
    (fun _ hc => endsWord_of_joins hc) fun _ hd => hd

theorem subject_truth (value : Bool) : Subject (.truth value) (if value then "True" else "False") := by
  have hword : Word (if value then "True" else "False") := by cases value <;> decide
  exact (spells_word hword (.loosen rfl (.truth value))).mono
    (fun _ hc => endsWord_of_joins hc) fun _ hd => hd

theorem subject_nothing : Subject .nothing "None" :=
  (spells_word (by decide) (.loosen rfl .nothing)).mono
    (fun _ hc => endsWord_of_joins hc) fun _ hd => hd

theorem subject_text (s : String) : Subject (.text s) (textLiteral s) := by
  refine ⟨⟨'\'', by simp [textLiteral], by decide⟩, _, ?_, .loosen rfl (.text s)⟩
  exact (reads_textLiteral s).mono fun c hc => (endsWord_of_joins hc).2

theorem phrase_integer (k : Nat) : Phrase .atom (.integer k) (toString k) :=
  ⟨(opens_toString k).mono fun _ => leads_of_digit, _,
    (reads_toString k).mono fun _ => endsNumber_of_closes, .integer k⟩

end literals

section operators

variable {e' : Expr}

theorem phrase_negative (h : Phrase .factor e x) : Phrase .factor (.negative e) ("-" ++ x) := by
  have hreads : Reads Leads "-" [.mark "-"] :=
    (reads_mark (m := "-") (by decide)).mono fun c hc => by
      have hlonger : longer "-" = ['=', '>'] := by decide
      simpa [hlonger] using ⟨hc.1, hc.2.1⟩
  exact h.before hreads ⟨'-', rfl, by decide⟩ fun _ => .negative

theorem phrase_not (h : Phrase .inversion e x) : Phrase .inversion (.not e) ("not " ++ x) := by
  have hword : Reads EndsWord "not" [.word "not"] := reads_word (by decide)
  have hreads : Reads Leads ("not" ++ " ") [.word "not"] :=
    hword.append .blank ⟨' ', rfl, endsWord_of_joins (by decide)⟩
  exact h.before hreads ⟨'n', rfl, by decide⟩ fun _ => .not

theorem phrase_sum (h : Phrase .sum e x) (h' : Phrase .term e' y) (hm : m ∈ sums) :
    Phrase .sum (.binary m e e') (x ++ (" " ++ m ++ " ") ++ y) := by
  have hmarks : ∀ m ∈ sums, m ∈ marks ∧ ' ' ∉ longer m := by decide
  exact h.between (reads_operator (hmarks m hm).1 (hmarks m hm).2) ⟨' ', by simp, by decide⟩ h'
    fun _ _ hd hd' => .sum hd hm hd'

theorem phrase_product (h : Phrase .term e x) (h' : Phrase .factor e' y) (hm : m ∈ products) :
    Phrase .term (.binary m e e') (x ++ (" " ++ m ++ " ") ++ y) := by
  have hmarks : ∀ m ∈ products, m ∈ marks ∧ ' ' ∉ longer m := by decide
  exact h.between (reads_operator (hmarks m hm).1 (hmarks m hm).2) ⟨' ', by simp, by decide⟩ h'
    fun _ _ hd hd' => .product hd hm hd'

theorem phrase_power (h : Phrase .primary e x) (h' : Phrase .factor e' y) :
    Phrase .power (.binary "**" e e') (x ++ " ** " ++ y) :=
  h.between (reads_operator (m := "**") (by decide) (by decide)) ⟨' ', rfl, by decide⟩ h'
    fun _ _ => .power

theorem phrase_compare (h : Phrase .sum e x) (h' : Phrase .sum e' y) (hm : m ∈ comparisons) :
    Phrase .comparison (.compare e [(m, e')]) (x ++ (" " ++ m ++ " ") ++ y) := by
  have hmarks : ∀ m ∈ comparisons, m ∈ marks ∧ ' ' ∉ longer m := by decide
  exact h.between (reads_operator (hmarks m hm).1 (hmarks m hm).2) ⟨' ', by simp, by decide⟩ h'
    fun _ _ hd hd' => .compare hd (.single hm hd') (by simp)

end operators

section rows

variable {es es' : List Expr}

/-- The text is read as operands in a row, with a word between them. -/
abbrev Row (n : String) (l : Level) (es : List Expr) : String → Prop :=
  Spells Closes fun ts => Chain n l ts es

theorem Phrase.row (h : Phrase l e x) : Row n l [e] x := h.mono (fun _ hc => hc) fun _ => .single

theorem Row.length_pos (h : Row n l es x) : 0 < es.length := by
  obtain ⟨-, ts, -, hchain⟩ := h
  exact Chain.length_pos hchain

theorem Row.append (h : Row n l es x) (h' : Row n l es' y) (hn : Word n) :
    Row n l (es ++ es') (x ++ (" " ++ n ++ " ") ++ y) :=
  h.between (reads_keyword hn) ⟨' ', by simp, by decide⟩ h' fun _ _ => .append

end rows

section subjects

variable {es : List Expr} {texts : List String}

theorem Subject.member (h : Subject e x) (hn : Proper n) : Subject (.member e n) (x ++ "." ++ n) := by
  have hdot : Reads (fun c => c ≠ '.') "." [.mark "."] :=
    (reads_mark (m := ".") (by decide)).mono fun c hc => by
      have hlonger : longer "." = ['.'] := by decide
      simpa [hlonger] using hc
  have hword : Opens (fun c => c ≠ '.') n := by
    obtain ⟨c, hc, -⟩ := hn.word.opens
    refine ⟨c, hc, ?_⟩
    rintro rfl
    cases hn.word.chars '.' (List.mem_of_head? hc)
  have hmember : Spells Joins (· = [.mark ".", .word n]) ("." ++ n) :=
    ⟨⟨'.', by simp, by decide⟩, _,
      (hdot.append (reads_word hn.word) hword).mono fun _ => endsWord_of_joins, rfl⟩
  rw [String.append_assoc]
  refine h.append hmember ⟨'.', by simp, by decide⟩ fun ts us hd hus => ?_
  exact hus ▸ .member hd hn.name

/-- What is called may be any primary expression, with its arguments between commas. -/
theorem Subject.call (h : Subject e x) (hargs : List.Forall₂ (Phrase .disjunction) es texts) :
    Subject (.call e es) (x ++ "(" ++ Text.join ", " texts ++ ")") := by
  have hcall : Spells Joins (fun us => ∃ ws, us = .mark "(" :: (ws ++ [.mark ")"]) ∧ Items ws es)
      ("(" ++ Text.join ", " texts ++ ")") :=
    (inner_items hargs).spells (by decide) (by decide) fun ws hws => ⟨ws, rfl, hws⟩
  have hall : Subject (.call e es) (x ++ ("(" ++ Text.join ", " texts ++ ")")) := by
    refine h.append hcall ⟨'(', by simp, by decide⟩ ?_
    rintro ts _ hd ⟨ws, rfl, hws⟩
    exact .call hd hws
  simpa only [String.append_assoc] using hall

theorem Subject.callOne {i : Expr} (h : Subject e x) (hi : Phrase .disjunction i y) :
    Subject (.call e [i]) (x ++ "(" ++ y ++ ")") := h.call (.cons hi .nil)

theorem Subject.subscript {i : Expr} (h : Subject e x) (hi : Phrase .disjunction i y) :
    Subject (.subscript e i) (x ++ "[" ++ y ++ "]") := by
  have hindex : Spells Joins
      (fun us => ∃ ws, us = .mark "[" :: (ws ++ [.mark "]"]) ∧ Derives .disjunction ws i)
      ("[" ++ y ++ "]") :=
    Inner.spells (.inr hi) (by decide) (by decide) fun ws hws => ⟨ws, rfl, hws⟩
  have hall : Subject (.subscript e i) (x ++ ("[" ++ y ++ "]")) := by
    refine h.append hindex ⟨'[', by simp, by decide⟩ ?_
    rintro ts _ hd ⟨ws, rfl, hws⟩
    exact .subscript hd hws
  simpa only [String.append_assoc] using hall

theorem subject_list (h : List.Forall₂ (Phrase .disjunction) es texts) :
    Subject (.list es) ("[" ++ Text.join ", " texts ++ "]") :=
  subject_of_atom ((inner_items h).spells (by decide) (by decide) fun _ => .list)

theorem subject_tuple (h : List.Forall₂ (Phrase .disjunction) es texts) (hlen : es.length ≠ 1) :
    Subject (.tuple es) ("(" ++ Text.join ", " texts ++ ")") :=
  subject_of_atom ((inner_items h).spells (by decide) (by decide) fun _ hi => .tuple hi hlen)

theorem subject_dictionary {entries : List (Expr × Expr)}
    (h : List.Forall₂ EntrySpelled entries texts) :
    Subject (.dictionary entries) ("\x7b" ++ Text.join ", " texts ++ "\x7d") :=
  subject_of_atom ((inner_entries h).spells (by decide) (by decide) fun _ => .dictionary)

end subjects

end BlockProgram.Python.Syntax
