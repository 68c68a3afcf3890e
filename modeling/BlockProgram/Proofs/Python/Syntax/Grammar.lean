import BlockProgram.Proofs.Python.Syntax.Lexer

/-! The grammar of expressions in the generated language, level by level, with the operators that are in
use: syntax trees, and the tokens from which they derive. -/
namespace BlockProgram.Python.Syntax

/-- Syntax trees. Operators are given as they are written. -/
inductive Expr where
  | name (n : String)
  | integer (n : Nat)
  | decimal (digits places : Nat)
  | text (s : String)
  | truth (value : Bool)
  | nothing
  | negative (x : Expr)
  | binary (operator : String) (x y : Expr)
  /-- An operand, compared with the next one, and so on. -/
  | compare (x : Expr) (rest : List (String × Expr))
  | not (x : Expr)
  /-- Two or more operands joined with `and`. -/
  | all (xs : List Expr)
  /-- Two or more operands joined with `or`. -/
  | any (xs : List Expr)
  | list (xs : List Expr)
  | tuple (xs : List Expr)
  | dictionary (entries : List (Expr × Expr))
  | call (f : Expr) (arguments : List Expr)
  | member (x : Expr) (n : String)
  | subscript (x i : Expr)

/-- The levels of the grammar, from the loosest. -/
inductive Level where
  | disjunction
  | conjunction
  | inversion
  | comparison
  | sum
  | term
  | factor
  | power
  | primary
  | atom
  deriving DecidableEq, Repr

/-- The level whose phrases are phrases of this level as well. -/
def Level.next? : Level → Option Level
  | disjunction => some conjunction
  | conjunction => some inversion
  | inversion => some comparison
  | comparison => some sum
  | sum => some term
  | term => some factor
  | factor => some power
  | power => some primary
  | primary => some atom
  | atom => none

def keywords : List String :=
  ["False", "None", "True", "and", "as", "assert", "async", "await", "break", "class", "continue",
    "def", "del", "elif", "else", "except", "finally", "for", "from", "global", "if", "import", "in",
    "is", "lambda", "nonlocal", "not", "or", "pass", "raise", "return", "try", "while", "with", "yield"]

/-- A word that is a name. -/
structure Proper (name : String) : Prop where
  word : Word name
  name : name ∉ keywords

instance (name : String) : Decidable (Proper name) :=
  decidable_of_iff (Word name ∧ name ∉ keywords)
    ⟨fun ⟨word, name⟩ => ⟨word, name⟩, fun ⟨word, name⟩ => ⟨word, name⟩⟩

def comparisons : List String := ["==", "!=", "<", "<=", ">", ">="]

def sums : List String := ["+", "-"]

def products : List String := ["*", "/"]

mutual

/-- The tokens are a phrase of the level, with the given tree. -/
inductive Derives : Level → List Token → Expr → Prop where
  | loosen {l l' : Level} {ts : List Token} {e : Expr} (hl : l.next? = some l')
      (h : Derives l' ts e) : Derives l ts e
  | any {ts us : List Token} {x : Expr} {ys : List (String × Expr)} (h : Derives .conjunction ts x)
      (hl : Links .word ["or"] .conjunction us ys) (hne : ys ≠ []) :
      Derives .disjunction (ts ++ us) (.any (x :: ys.map Prod.snd))
  | all {ts us : List Token} {x : Expr} {ys : List (String × Expr)} (h : Derives .inversion ts x)
      (hl : Links .word ["and"] .inversion us ys) (hne : ys ≠ []) :
      Derives .conjunction (ts ++ us) (.all (x :: ys.map Prod.snd))
  | not {ts : List Token} {x : Expr} (h : Derives .inversion ts x) :
      Derives .inversion (.word "not" :: ts) (.not x)
  | compare {ts us : List Token} {x : Expr} {ys : List (String × Expr)} (h : Derives .sum ts x)
      (hl : Links .mark comparisons .sum us ys) (hne : ys ≠ []) :
      Derives .comparison (ts ++ us) (.compare x ys)
  | sum {ts us : List Token} {x y : Expr} {op : String} (h : Derives .sum ts x) (hop : op ∈ sums)
      (h' : Derives .term us y) : Derives .sum (ts ++ .mark op :: us) (.binary op x y)
  | product {ts us : List Token} {x y : Expr} {op : String} (h : Derives .term ts x)
      (hop : op ∈ products) (h' : Derives .factor us y) :
      Derives .term (ts ++ .mark op :: us) (.binary op x y)
  | negative {ts : List Token} {x : Expr} (h : Derives .factor ts x) :
      Derives .factor (.mark "-" :: ts) (.negative x)
  | power {ts us : List Token} {x y : Expr} (h : Derives .primary ts x) (h' : Derives .factor us y) :
      Derives .power (ts ++ .mark "**" :: us) (.binary "**" x y)
  | call {ts us : List Token} {f : Expr} {xs : List Expr} (h : Derives .primary ts f)
      (hi : Items us xs) : Derives .primary (ts ++ .mark "(" :: (us ++ [.mark ")"])) (.call f xs)
  | subscript {ts us : List Token} {x i : Expr} (h : Derives .primary ts x)
      (hi : Derives .disjunction us i) :
      Derives .primary (ts ++ .mark "[" :: (us ++ [.mark "]"])) (.subscript x i)
  | member {ts : List Token} {x : Expr} {n : String} (h : Derives .primary ts x)
      (hn : n ∉ keywords) : Derives .primary (ts ++ [.mark ".", .word n]) (.member x n)
  | name {n : String} (hn : n ∉ keywords) : Derives .atom [.word n] (.name n)
  | truth (value : Bool) : Derives .atom [.word (if value then "True" else "False")] (.truth value)
  | nothing : Derives .atom [.word "None"] .nothing
  | integer (n : Nat) : Derives .atom [.integer n] (.integer n)
  | decimal (digits places : Nat) : Derives .atom [.decimal digits places] (.decimal digits places)
  | text (s : String) : Derives .atom [.text s] (.text s)
  | group {ts : List Token} {e : Expr} (h : Derives .disjunction ts e) :
      Derives .atom (.mark "(" :: (ts ++ [.mark ")"])) e
  | tuple {ts : List Token} {xs : List Expr} (h : Items ts xs) (hl : xs.length ≠ 1) :
      Derives .atom (.mark "(" :: (ts ++ [.mark ")"])) (.tuple xs)
  | list {ts : List Token} {xs : List Expr} (h : Items ts xs) :
      Derives .atom (.mark "[" :: (ts ++ [.mark "]"])) (.list xs)
  | dictionary {ts : List Token} {entries : List (Expr × Expr)} (h : Entries ts entries) :
      Derives .atom (.mark "\x7b" :: (ts ++ [.mark "\x7d"])) (.dictionary entries)

/-- Further operands of the level, each with one of the operators before it. -/
inductive Links : (String → Token) → List String → Level → List Token → List (String × Expr) →
    Prop where
  | nil {make : String → Token} {ops : List String} {l : Level} : Links make ops l [] []
  | cons {make : String → Token} {ops : List String} {l : Level} {us ws : List Token} {op : String}
      {y : Expr} {ys : List (String × Expr)} (hop : op ∈ ops) (h : Derives l us y)
      (hl : Links make ops l ws ys) : Links make ops l (make op :: (us ++ ws)) ((op, y) :: ys)

/-- Expressions with commas between them. -/
inductive Items : List Token → List Expr → Prop where
  | nil : Items [] []
  | cons {ts us : List Token} {x : Expr} {ys : List (String × Expr)} (h : Derives .disjunction ts x)
      (hl : Links .mark [","] .disjunction us ys) : Items (ts ++ us) (x :: ys.map Prod.snd)

/-- Entries with commas between them, each with a colon between key and value. -/
inductive Entries : List Token → List (Expr × Expr) → Prop where
  | nil : Entries [] []
  | single {ts us : List Token} {k v : Expr} (hk : Derives .disjunction ts k)
      (hv : Derives .disjunction us v) : Entries (ts ++ .mark ":" :: us) [(k, v)]
  | cons {ts us ws : List Token} {k v : Expr} {entries : List (Expr × Expr)}
      (hk : Derives .disjunction ts k) (hv : Derives .disjunction us v) (h : Entries ws entries)
      (hne : entries ≠ []) : Entries (ts ++ .mark ":" :: (us ++ .mark "," :: ws)) ((k, v) :: entries)

end

/-- The text is read as an expression with the given tree. -/
def Parses (code : String) (e : Expr) : Prop :=
  ∃ ts, tokens code.toList = some ts ∧ Derives .disjunction ts e

variable {l l' : Level} {ts us ws : List Token} {e x y : Expr} {ops : List String}
  {make : String → Token} {ys zs : List (String × Expr)} {xs xs' : List Expr} {op : String}

/-- The place of a level among the levels, from the loosest. -/
def Level.index : Level → Nat
  | disjunction => 0
  | conjunction => 1
  | inversion => 2
  | comparison => 3
  | sum => 4
  | term => 5
  | factor => 6
  | power => 7
  | primary => 8
  | atom => 9

private theorem Level.exists_next? (h : l.index < l'.index) :
    ∃ m, l.next? = some m ∧ m.index = l.index + 1 := by
  cases l with
  | atom => cases l' <;> simp [index] at h
  | _ => exact ⟨_, rfl, rfl⟩

theorem Level.index_inj (h : l.index = l'.index) : l = l' := by
  cases l <;> cases l' <;> first | rfl | cases h

/-- A phrase is one of every looser level. -/
theorem Derives.loosenTo (h : Derives l' ts e) (hle : l.index ≤ l'.index) : Derives l ts e := by
  induction hn : l'.index - l.index generalizing l with
  | zero =>
    obtain rfl : l = l' := Level.index_inj (by omega)
    exact h
  | succ n ih =>
    have hlt : l.index < l'.index := by omega
    obtain ⟨m, hm, hindex⟩ := Level.exists_next? hlt
    exact .loosen hm (ih (by omega) (by omega))

theorem Links.append (h : Links make ops l us ys) (h' : Links make ops l ws zs) :
    Links make ops l (us ++ ws) (ys ++ zs) := by
  induction ys generalizing us with
  | nil =>
    cases h
    exact h'
  | cons link ys ih =>
    cases h with
    | cons hop h hl =>
      rw [List.cons_append, List.append_assoc]
      exact .cons hop h (ih hl)

theorem Links.single (hop : op ∈ ops) (h : Derives l us y) :
    Links make ops l (make op :: us) [(op, y)] := by
  have hl : Links make ops l (make op :: (us ++ [])) [(op, y)] := .cons hop h .nil
  rwa [List.append_nil] at hl

/-- One or more operands of the level with a word between them. -/
def Chain (word : String) (l : Level) (ts : List Token) (xs : List Expr) : Prop :=
  ∃ first us x ys, ts = first ++ us ∧ xs = x :: ys.map Prod.snd ∧ Derives l first x ∧
    Links .word [word] l us ys

namespace Chain

variable {word : String}

theorem single (h : Derives l ts x) : Chain word l ts [x] :=
  ⟨ts, [], x, [], (List.append_nil ts).symm, rfl, h, .nil⟩

theorem append (h : Chain word l ts xs) (h' : Chain word l us xs') :
    Chain word l (ts ++ .word word :: us) (xs ++ xs') := by
  obtain ⟨first, rest, x, ys, rfl, rfl, hx, hl⟩ := h
  obtain ⟨first', rest', x', ys', rfl, rfl, hx', hl'⟩ := h'
  refine ⟨first, rest ++ (.word word :: first' ++ rest'), x, ys ++ (word, x') :: ys', by simp, by simp,
    hx, hl.append ?_⟩
  exact .cons (List.mem_singleton_self word) hx' hl'

theorem length_pos (h : Chain word l ts xs) : 0 < xs.length := by
  obtain ⟨first, us, x, ys, rfl, rfl, -, -⟩ := h
  exact Nat.succ_pos _

theorem any (h : Chain "or" .conjunction ts xs) (hlen : 2 ≤ xs.length) :
    Derives .disjunction ts (.any xs) := by
  obtain ⟨first, us, x, ys, rfl, rfl, hx, hl⟩ := h
  refine .any hx hl ?_
  rintro rfl
  simp at hlen

theorem all (h : Chain "and" .inversion ts xs) (hlen : 2 ≤ xs.length) :
    Derives .conjunction ts (.all xs) := by
  obtain ⟨first, us, x, ys, rfl, rfl, hx, hl⟩ := h
  refine .all hx hl ?_
  rintro rfl
  simp at hlen

end Chain

end BlockProgram.Python.Syntax
