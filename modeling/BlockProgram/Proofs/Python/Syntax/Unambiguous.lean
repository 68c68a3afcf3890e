import BlockProgram.Proofs.Python.Syntax.Grammar

/-! A text is read as one tree at most. Two phrases of a level that begin in the same place end in the
same place, unless what comes after one of them would go on with it. -/
namespace BlockProgram.Python.Syntax

def closing : List String := [")", "]", "\x7d"]

/-- How tightly a token binds to a phrase before it; nothing if it does not. -/
def Token.strength : Token → Nat
  | .word w => if w = "or" then 1 else if w = "and" then 2 else 0
  | .mark m =>
    if m ∈ comparisons then 3 else if m ∈ sums then 4 else if m ∈ products then 5
    else if m = "**" then 6 else if m ∈ ["(", "[", "."] then 7 else 0
  | _ => 0

/-- The strength from which on a token may go on with a phrase of the level. -/
def Level.strength : Level → Nat
  | disjunction => 1
  | conjunction => 2
  | inversion => 3
  | comparison => 3
  | sum => 4
  | term => 5
  | factor => 6
  | power => 6
  | primary => 7
  | atom => 8

/-- What comes after a phrase of the level does not go on with it. -/
def Stops (l : Level) (rest : List Token) : Prop := ∀ t ∈ rest.head?, t.strength < l.strength

/-- The token may be the first one of a phrase of the level. -/
def Starts (l : Level) : Token → Prop
  | .word w => w ∉ keywords ∨ w ∈ ["True", "False", "None"] ∨
      w = "not" ∧ l.index ≤ Level.inversion.index
  | .mark m => m ∈ ["(", "[", "\x7b"] ∨ m = "-" ∧ l.index ≤ Level.factor.index
  | _ => True

/-- Two phrases of the level from the same place on are the same, if the first has at most `n` tokens. -/
def Settled (l : Level) (n : Nat) : Prop :=
  ∀ {ts ts' rest rest' : List Token} {e e' : Expr}, ts.length ≤ n → Derives l ts e →
    Derives l ts' e' → ts ++ rest = ts' ++ rest' → Stops l rest → Stops l rest' → ts = ts' ∧ e = e'

variable {l l' : Level} {n : Nat} {t t' : Token} {ts ts' us us' rest rest' : List Token}
  {e e' x : Expr} {make : String → Token} {ops : List String} {ys ys' : List (String × Expr)}

theorem Starts.loosen (h : Starts l' t) (hl : l.index ≤ l'.index) : Starts l t := by
  cases t with
  | word w =>
    obtain h | h | ⟨h, hle⟩ := h
    · exact .inl h
    · exact .inr (.inl h)
    · exact .inr (.inr ⟨h, Nat.le_trans hl hle⟩)
  | mark m =>
    obtain h | ⟨h, hle⟩ := h
    · exact .inl h
    · exact .inr ⟨h, Nat.le_trans hl hle⟩
  | _ => trivial

private theorem Level.index_next? (h : l.next? = some l') : l'.index = l.index + 1 := by
  cases l <;> cases h <;> rfl

private theorem exists_starts_append (hl : l.index ≤ l'.index)
    (h : ∃ t us, ts = t :: us ∧ Starts l' t) : ∃ t us, ts ++ us' = t :: us ∧ Starts l t := by
  obtain ⟨t, us, rfl, ht⟩ := h
  exact ⟨t, us ++ us', rfl, ht.loosen hl⟩

/-- A phrase has a first token, and that is one with which its level may start. -/
theorem Derives.exists_starts : ∀ {l : Level} {ts : List Token} {e : Expr}, Derives l ts e →
    ∃ t us, ts = t :: us ∧ Starts l t
  | _, _, _, .loosen hl h => by
    obtain ⟨t, us, rfl, ht⟩ := exists_starts h
    exact ⟨t, us, rfl, ht.loosen (by have := Level.index_next? hl; omega)⟩
  | _, _, _, .any h _ _ => exists_starts_append (by decide) (exists_starts h)
  | _, _, _, .all h _ _ => exists_starts_append (by decide) (exists_starts h)
  | _, _, _, .not _ => ⟨_, _, rfl, .inr (.inr ⟨rfl, Nat.le_refl _⟩)⟩
  | _, _, _, .compare h _ _ => exists_starts_append (by decide) (exists_starts h)
  | _, _, _, .sum h _ _ => exists_starts_append (Nat.le_refl _) (exists_starts h)
  | _, _, _, .product h _ _ => exists_starts_append (Nat.le_refl _) (exists_starts h)
  | _, _, _, .negative _ => ⟨_, _, rfl, .inr ⟨rfl, Nat.le_refl _⟩⟩
  | _, _, _, .power h _ => exists_starts_append (by decide) (exists_starts h)
  | _, _, _, .call h _ => exists_starts_append (Nat.le_refl _) (exists_starts h)
  | _, _, _, .subscript h _ => exists_starts_append (Nat.le_refl _) (exists_starts h)
  | _, _, _, .member h _ => exists_starts_append (Nat.le_refl _) (exists_starts h)
  | _, _, _, .name hn => ⟨_, _, rfl, .inl hn⟩
  | _, _, _, .truth value => ⟨_, _, rfl, .inr (.inl (by cases value <;> decide))⟩
  | _, _, _, .nothing => ⟨_, _, rfl, .inr (.inl (by decide))⟩
  | _, _, _, .integer _ => ⟨_, _, rfl, trivial⟩
  | _, _, _, .decimal _ _ => ⟨_, _, rfl, trivial⟩
  | _, _, _, .text _ => ⟨_, _, rfl, trivial⟩
  | _, _, _, .group _ => ⟨_, _, rfl, .inl (by decide)⟩
  | _, _, _, .tuple _ _ => ⟨_, _, rfl, .inl (by decide)⟩
  | _, _, _, .list _ => ⟨_, _, rfl, .inl (by decide)⟩
  | _, _, _, .dictionary _ => ⟨_, _, rfl, .inl (by decide)⟩

/-- A phrase does not start with what cannot start one. -/
theorem Derives.head?_ne (h : Derives l ts e) (ht : ¬ Starts l t) : ts.head? ≠ some t := by
  obtain ⟨t', us, rfl, ht'⟩ := h.exists_starts
  rintro he
  cases he
  exact ht ht'

private theorem Stops.tighten (h : Stops l rest) (hl : l.strength ≤ l'.strength) : Stops l' rest :=
  fun t ht => Nat.lt_of_lt_of_le (h t ht) hl

theorem stops_cons (ht : t.strength < l.strength) : Stops l (t :: rest) := by
  intro t' ht'
  cases ht'
  exact ht

private theorem Level.strength_pos (l : Level) : 0 < l.strength := by cases l <;> decide

/-- A closing bracket comes next. -/
def Closed (rest : List Token) : Prop := ∃ m ∈ closing, rest.head? = some (.mark m)

namespace Closed

theorem cons {m : String} (hm : m ∈ closing) : Closed (.mark m :: rest) := ⟨m, hm, rfl⟩

private theorem stops (h : Closed rest) : Stops l rest := by
  obtain ⟨m, hm, hrest⟩ := h
  intro t ht
  rw [hrest] at ht
  cases ht
  have hzero : ∀ m ∈ closing, (Token.mark m).strength = 0 := by decide
  rw [hzero m hm]
  exact l.strength_pos

theorem head?_ne (h : Closed rest) {m : String} (hm : m ∉ closing) : rest.head? ≠ some (.mark m) := by
  obtain ⟨m', hm', hrest⟩ := h
  rw [hrest]
  rintro he
  cases he
  exact hm hm'

/-- What is closed is no phrase. -/
theorem ne_append (h : Closed rest) (hd : Derives l ts e) : rest ≠ ts ++ rest' := by
  obtain ⟨m, hm, hrest⟩ := h
  obtain ⟨t, us, rfl, ht⟩ := hd.exists_starts
  rintro rfl
  cases hrest
  have hno : ∀ m ∈ closing, m ∉ ["(", "[", "\x7b"] ∧ m ≠ "-" := by decide
  obtain h | ⟨h, -⟩ := ht
  · exact (hno m hm).1 h
  · exact (hno m hm).2 h

end Closed

section links

variable (hops : ∀ op ∈ ops, (make op).strength < l.strength)
include hops

private theorem Links.stops (h : Links make ops l us ys) (hrest : Stops l rest) : Stops l (us ++ rest) := by
  cases h with
  | nil => exact hrest
  | cons hop _ _ => exact stops_cons (hops _ hop)

theorem Settled.links (hs : Settled l n) (hmake : Function.Injective make)
    (h : Links make ops l us ys) (h' : Links make ops l us' ys') (hn : us.length ≤ n)
    (he : us ++ rest = us' ++ rest') (hrest : Stops l rest) (hrest' : Stops l rest')
    (hno : ∀ op ∈ ops, rest.head? ≠ some (make op))
    (hno' : ∀ op ∈ ops, rest'.head? ≠ some (make op)) : us = us' ∧ ys = ys' := by
  induction ys generalizing us us' ys' with
  | nil =>
    cases h
    cases h' with
    | nil => exact ⟨rfl, rfl⟩
    | cons hop _ _ => exact (hno _ hop (congrArg List.head? he)).elim
  | cons link ys ih =>
    cases h with
    | cons hop hy hl =>
      cases h' with
      | nil => exact (hno' _ hop (congrArg List.head? he).symm).elim
      | cons hop' hy' hl' =>
        simp only [List.cons_append, List.append_assoc, List.cons.injEq] at he
        obtain ⟨hmk, he⟩ := he
        obtain rfl := hmake hmk
        simp only [List.length_cons, List.length_append] at hn
        obtain ⟨rfl, rfl⟩ := hs (by omega) hy hy' he (hl.stops hops hrest) (hl'.stops hops hrest')
        obtain ⟨rfl, rfl⟩ := ih hl hl' (by omega) (List.append_cancel_left he)
        exact ⟨rfl, rfl⟩

end links

/-- A phrase of the level is an operand of the next one, and further operands. -/
def Spined (l l' : Level) (make : String → Token) (ops : List String)
    (combine : Expr → List (String × Expr) → Expr) : Prop :=
  ∀ {ts e}, Derives l ts e → ∃ first us x ys, ts = first ++ us ∧ Derives l' first x ∧
    Links make ops l' us ys ∧ e = combine x ys

private theorem Settled.of_spined {combine : Expr → List (String × Expr) → Expr}
    (hs : Settled l' n) (hspined : Spined l l' make ops combine) (hl : l.strength < l'.strength)
    (hops : ∀ op ∈ ops, (make op).strength = l.strength) (hmake : Function.Injective make) :
    Settled l n := by
  intro ts ts' rest rest' e e' hn h h' he hrest hrest'
  obtain ⟨first, us, x, ys, rfl, hx, hlinks, rfl⟩ := hspined h
  obtain ⟨first', us', x', ys', rfl, hx', hlinks', rfl⟩ := hspined h'
  have hlt (op : String) (hop : op ∈ ops) : (make op).strength < l'.strength := hops op hop ▸ hl
  have hno {rest : List Token} (hrest : Stops l rest) (op : String) (hop : op ∈ ops) :
      rest.head? ≠ some (make op) := by
    intro hhead
    exact Nat.ne_of_lt (hrest _ hhead) (hops op hop)
  have htight := hrest.tighten (Nat.le_of_lt hl)
  have htight' := hrest'.tighten (Nat.le_of_lt hl)
  rw [List.length_append] at hn
  rw [List.append_assoc, List.append_assoc] at he
  obtain ⟨rfl, rfl⟩ := hs (by omega) hx hx' he (hlinks.stops hlt htight) (hlinks'.stops hlt htight')
  obtain ⟨rfl, rfl⟩ := hs.links hlt hmake hlinks hlinks' (by omega) (List.append_cancel_left he)
    htight htight' (hno hrest) (hno hrest')
  exact ⟨rfl, rfl⟩

private theorem spined_disjunction : Spined .disjunction .conjunction .word ["or"]
    fun x ys => if ys = [] then x else .any (x :: ys.map Prod.snd) := by
  intro ts e h
  cases h with
  | loosen hl h =>
    cases hl
    exact ⟨ts, [], e, [], (List.append_nil ts).symm, h, .nil, (if_pos rfl).symm⟩
  | any h hl hne => exact ⟨_, _, _, _, rfl, h, hl, (if_neg hne).symm⟩

private theorem spined_conjunction : Spined .conjunction .inversion .word ["and"]
    fun x ys => if ys = [] then x else .all (x :: ys.map Prod.snd) := by
  intro ts e h
  cases h with
  | loosen hl h =>
    cases hl
    exact ⟨ts, [], e, [], (List.append_nil ts).symm, h, .nil, (if_pos rfl).symm⟩
  | all h hl hne => exact ⟨_, _, _, _, rfl, h, hl, (if_neg hne).symm⟩

private theorem spined_comparison : Spined .comparison .sum .mark comparisons
    fun x ys => if ys = [] then x else .compare x ys := by
  intro ts e h
  cases h with
  | loosen hl h =>
    cases hl
    exact ⟨ts, [], e, [], (List.append_nil ts).symm, h, .nil, (if_pos rfl).symm⟩
  | compare h hl hne => exact ⟨_, _, _, _, rfl, h, hl, (if_neg hne).symm⟩

def binaries (x : Expr) (ys : List (String × Expr)) : Expr :=
  ys.foldl (fun x (op, y) => .binary op x y) x

private theorem spined_binaries_append {op : String} {ts us : List Token} {x y : Expr}
    (h : ∃ first rest z ys, ts = first ++ rest ∧ Derives l first z ∧ Links .mark ops l rest ys ∧
      x = binaries z ys) (hop : op ∈ ops) (hy : Derives l us y) :
    ∃ first rest z ys, ts ++ .mark op :: us = first ++ rest ∧ Derives l first z ∧
      Links .mark ops l rest ys ∧ .binary op x y = binaries z ys := by
  obtain ⟨first, rest, z, ys, rfl, hz, hl, rfl⟩ := h
  refine ⟨first, rest ++ .mark op :: us, z, ys ++ [(op, y)], by simp, hz, ?_, ?_⟩
  · exact hl.append (.single hop hy)
  · simp [binaries]

private theorem spined_sum : Spined .sum .term .mark sums binaries
  | ts, e, .loosen hl h => by
    cases hl
    exact ⟨ts, [], e, [], (List.append_nil ts).symm, h, .nil, rfl⟩
  | _, _, .sum h hop hy => spined_binaries_append (spined_sum h) hop hy

private theorem spined_term : Spined .term .factor .mark products binaries
  | ts, e, .loosen hl h => by
    cases hl
    exact ⟨ts, [], e, [], (List.append_nil ts).symm, h, .nil, rfl⟩
  | _, _, .product h hop hy => spined_binaries_append (spined_term h) hop hy

/-- A phrase of the level is one of the next level, or the operator and another phrase of the level. -/
def Prefixed (l l' : Level) (t : Token) (make : Expr → Expr) : Prop :=
  ∀ {ts e}, Derives l ts e → Derives l' ts e ∨ ∃ us x, ts = t :: us ∧ Derives l us x ∧ e = make x

private theorem Settled.of_prefixed {make : Expr → Expr} (hs : Settled l' n)
    (hbelow : ∀ m < n, Settled l m) (hp : Prefixed l l' t make) (hl : l.strength = l'.strength)
    (ht : ¬ Starts l' t) : Settled l n := by
  intro ts ts' rest rest' e e' hn h h' he hrest hrest'
  have hhead {ts us rest rest' : List Token} {e : Expr} (h : Derives l' ts e) :
      ts ++ rest ≠ t :: us ++ rest' := by
    intro he
    obtain ⟨t', us', rfl, ht'⟩ := h.exists_starts
    exact ht ((List.cons.inj he).1 ▸ ht')
  obtain h | ⟨us, x, rfl, hx, rfl⟩ := hp h
  · obtain h' | ⟨us', x', rfl, hx', rfl⟩ := hp h'
    · exact hs hn h h' he (hrest.tighten (Nat.le_of_eq hl)) (hrest'.tighten (Nat.le_of_eq hl))
    · exact (hhead h he).elim
  · obtain h' | ⟨us', x', rfl, hx', rfl⟩ := hp h'
    · exact (hhead h' he.symm).elim
    · obtain ⟨rfl, rfl⟩ := hbelow us.length hn (Nat.le_refl _) hx hx' (List.cons.inj he).2 hrest hrest'
      exact ⟨rfl, rfl⟩

private theorem prefixed_inversion : Prefixed .inversion .comparison (.word "not") .not := by
  intro ts e h
  cases h with
  | loosen hl h =>
    cases hl
    exact .inl h
  | not h => exact .inr ⟨_, _, rfl, h, rfl⟩

private theorem prefixed_factor : Prefixed .factor .power (.mark "-") .negative := by
  intro ts e h
  cases h with
  | loosen hl h =>
    cases hl
    exact .inl h
  | negative h => exact .inr ⟨_, _, rfl, h, rfl⟩

theorem Settled.power (hs : Settled .primary n) (hbelow : ∀ m < n, Settled .factor m) :
    Settled .power n := by
  intro ts ts' rest rest' e e' hn h h' he hrest hrest'
  have hhead {rest us : List Token} (hrest : Stops .power rest) : rest ≠ .mark "**" :: us := by
    rintro rfl
    exact absurd (hrest _ rfl) (by decide)
  have htight {rest : List Token} (hrest : Stops .power rest) : Stops .primary rest :=
    hrest.tighten (by decide)
  have hpower {us : List Token} : Stops .primary (.mark "**" :: us) := stops_cons (by decide)
  cases h with
  | loosen hl h =>
    cases hl
    cases h' with
    | loosen hl' h' =>
      cases hl'
      exact hs hn h h' he (htight hrest) (htight hrest')
    | power h' hy' =>
      rw [List.append_assoc] at he
      obtain ⟨rfl, rfl⟩ := hs hn h h' he (htight hrest) hpower
      exact (hhead hrest (List.append_cancel_left he)).elim
  | power h hy =>
    rw [List.length_append, List.length_cons] at hn
    rw [List.append_assoc] at he
    cases h' with
    | loosen hl' h' =>
      cases hl'
      obtain ⟨rfl, rfl⟩ := hs (by omega) h h' he hpower (htight hrest')
      exact (hhead hrest' (List.append_cancel_left he).symm).elim
    | power h' hy' =>
      rw [List.append_assoc] at he
      obtain ⟨rfl, rfl⟩ := hs (by omega) h h' he hpower hpower
      have he := (List.cons.inj (List.append_cancel_left he)).2
      obtain ⟨rfl, rfl⟩ := hbelow _ (by omega) (Nat.le_refl _) hy hy' he hrest hrest'
      exact ⟨rfl, rfl⟩

section brackets

variable {xs xs' : List Expr} {es es' : List (Expr × Expr)}

theorem Settled.items (hs : Settled .disjunction n) (h : Items ts xs) (h' : Items ts' xs')
    (hn : ts.length ≤ n) (he : ts ++ rest = ts' ++ rest') (hrest : Closed rest)
    (hrest' : Closed rest') : ts = ts' ∧ xs = xs' := by
  have hops : ∀ op ∈ [","], (Token.mark op).strength < Level.disjunction.strength := by decide
  have hcomma : "," ∉ closing := by decide
  cases h with
  | nil =>
    cases h' with
    | nil => exact ⟨rfl, rfl⟩
    | cons hx' _ =>
      rw [List.nil_append, List.append_assoc] at he
      exact (hrest.ne_append hx' he).elim
  | cons hx hl =>
    cases h' with
    | nil =>
      rw [List.nil_append, List.append_assoc] at he
      exact (hrest'.ne_append hx he.symm).elim
    | cons hx' hl' =>
      rw [List.length_append] at hn
      rw [List.append_assoc, List.append_assoc] at he
      obtain ⟨rfl, rfl⟩ := hs (by omega) hx hx' he (hl.stops hops hrest.stops)
        (hl'.stops hops hrest'.stops)
      have hno {rest : List Token} (hrest : Closed rest) (op : String) (hop : op ∈ [","]) :
          rest.head? ≠ some (.mark op) := by
        rw [List.mem_singleton.mp hop]
        exact hrest.head?_ne hcomma
      obtain ⟨rfl, rfl⟩ := hs.links hops (fun _ _ h => Token.mark.inj h) hl hl' (by omega)
        (List.append_cancel_left he) hrest.stops hrest'.stops (hno hrest) (hno hrest')
      exact ⟨rfl, rfl⟩

/-- Keys and values, and what comes after them. -/
theorem Settled.entry (hs : Settled .disjunction n) {ks ks' vs vs' : List Token}
    {k k' v v' : Expr} (hk : Derives .disjunction ks k) (hk' : Derives .disjunction ks' k')
    (hv : Derives .disjunction vs v) (hv' : Derives .disjunction vs' v')
    (hn : ks.length + vs.length ≤ n)
    (he : ks ++ .mark ":" :: (vs ++ rest) = ks' ++ .mark ":" :: (vs' ++ rest'))
    (hrest : Stops .disjunction rest) (hrest' : Stops .disjunction rest') :
    ks = ks' ∧ k = k' ∧ vs = vs' ∧ v = v' ∧ rest = rest' := by
  have hcolon {us : List Token} : Stops .disjunction (.mark ":" :: us) := stops_cons (by decide)
  obtain ⟨rfl, rfl⟩ := hs (by omega) hk hk' he hcolon hcolon
  have he := (List.cons.inj (List.append_cancel_left he)).2
  obtain ⟨rfl, rfl⟩ := hs (by omega) hv hv' he hrest hrest'
  exact ⟨rfl, rfl, rfl, rfl, List.append_cancel_left he⟩

theorem Settled.entries (hs : Settled .disjunction n) (h : Entries ts es)
    (h' : Entries ts' es') (hn : ts.length ≤ n) (he : ts ++ rest = ts' ++ rest')
    (hrest : Closed rest) (hrest' : Closed rest') : ts = ts' ∧ es = es' := by
  have hcomma {us : List Token} : Stops .disjunction (.mark "," :: us) := stops_cons (by decide)
  have hopen {rest us : List Token} (hrest : Closed rest) : rest ≠ .mark "," :: us := by
    rintro rfl
    exact hrest.head?_ne (by decide) rfl
  induction es generalizing ts ts' es' with
  | nil =>
    cases h
    cases h' with
    | nil => exact ⟨rfl, rfl⟩
    | single hk' _ =>
      rw [List.nil_append, List.append_assoc] at he
      exact (hrest.ne_append hk' he).elim
    | cons hk' _ _ _ =>
      rw [List.nil_append, List.append_assoc] at he
      exact (hrest.ne_append hk' he).elim
  | cons entry es ih =>
    cases h with
    | single hk hv =>
      simp only [List.length_append, List.length_cons] at hn
      simp only [List.append_assoc, List.cons_append] at he
      cases h' with
      | nil => exact (hrest'.ne_append hk he.symm).elim
      | single hk' hv' =>
        simp only [List.append_assoc, List.cons_append] at he
        obtain ⟨rfl, rfl, rfl, rfl, -⟩ := hs.entry hk hk' hv hv' (by omega) he hrest.stops
          hrest'.stops
        exact ⟨rfl, rfl⟩
      | cons hk' hv' _ _ =>
        simp only [List.append_assoc, List.cons_append] at he
        obtain ⟨-, -, -, -, hr⟩ := hs.entry hk hk' hv hv' (by omega) he hrest.stops hcomma
        exact (hopen hrest hr).elim
    | cons hk hv hes _ =>
      simp only [List.length_append, List.length_cons] at hn
      simp only [List.append_assoc, List.cons_append] at he
      cases h' with
      | nil => exact (hrest'.ne_append hk he.symm).elim
      | single hk' hv' =>
        simp only [List.append_assoc, List.cons_append] at he
        obtain ⟨-, -, -, -, hr⟩ := hs.entry hk hk' hv hv' (by omega) he hcomma hrest'.stops
        exact (hopen hrest' hr.symm).elim
      | cons hk' hv' hes' _ =>
        simp only [List.append_assoc, List.cons_append] at he
        obtain ⟨rfl, rfl, rfl, rfl, hr⟩ := hs.entry hk hk' hv hv' (by omega) he hcomma hcomma
        obtain ⟨rfl, rfl⟩ := ih hes hes' (by omega) (List.cons.inj hr).2
        exact ⟨rfl, rfl⟩

end brackets

/-- One thing after an atom. -/
inductive Trailer where
  | call (xs : List Expr)
  | subscript (i : Expr)
  | member (n : String)

def Trailer.apply (x : Expr) : Trailer → Expr
  | call xs => .call x xs
  | subscript i => .subscript x i
  | member n => .member x n

inductive Trails : List Token → Trailer → Prop where
  | call {us : List Token} {xs : List Expr} (h : Items us xs) :
      Trails (.mark "(" :: (us ++ [.mark ")"])) (.call xs)
  | subscript {us : List Token} {i : Expr} (h : Derives .disjunction us i) :
      Trails (.mark "[" :: (us ++ [.mark "]"])) (.subscript i)
  | member {n : String} : Trails [.mark ".", .word n] (.member n)

inductive Trailers : List Token → List Trailer → Prop where
  | nil : Trailers [] []
  | cons {us ws : List Token} {p : Trailer} {ps : List Trailer} (h : Trails us p)
      (hps : Trailers ws ps) : Trailers (us ++ ws) (p :: ps)

section trailers

variable {p p' : Trailer} {ps ps' : List Trailer}

theorem Trailers.concat (h : Trailers us ps) (hp : Trails us' p) :
    Trailers (us ++ us') (ps ++ [p]) := by
  induction h with
  | nil =>
    have hs := Trailers.cons hp .nil
    rwa [List.append_nil] at hs
  | cons hq _ ih =>
    rw [List.append_assoc]
    exact .cons hq ih

private theorem trailed_append (h : ∃ first rest z ps, ts = first ++ rest ∧ Derives .atom first z ∧
    Trailers rest ps ∧ x = ps.foldl Trailer.apply z) (hp : Trails us p) :
    ∃ first rest z ps, ts ++ us = first ++ rest ∧ Derives .atom first z ∧ Trailers rest ps ∧
      p.apply x = ps.foldl Trailer.apply z := by
  obtain ⟨first, rest, z, ps, rfl, hz, hps, rfl⟩ := h
  exact ⟨first, rest ++ us, z, ps ++ [p], by simp, hz, hps.concat hp, by simp⟩

theorem trailed : ∀ {ts e}, Derives .primary ts e → ∃ first us x ps, ts = first ++ us ∧
    Derives .atom first x ∧ Trailers us ps ∧ e = ps.foldl Trailer.apply x
  | ts, e, .loosen hl h => by
    cases hl
    exact ⟨ts, [], e, [], (List.append_nil ts).symm, h, .nil, rfl⟩
  | _, _, .call h hi => trailed_append (trailed h) (.call hi)
  | _, _, .subscript h hi => trailed_append (trailed h) (.subscript hi)
  | _, _, .member (n := n) h _ => trailed_append (trailed h) (.member (n := n))

private theorem Trails.exists_head (h : Trails us p) :
    ∃ t us', us = t :: us' ∧ t.strength = Level.primary.strength := by
  cases h with
  | _ => exact ⟨_, _, rfl, by decide⟩

private theorem Settled.trails (hs : Settled .disjunction n) (h : Trails us p) (h' : Trails us' p')
    (hn : us.length ≤ n) (he : us ++ rest = us' ++ rest') : us = us' ∧ p = p' := by
  cases h with
  | call hi =>
    cases h' with
    | call hi' =>
      simp only [List.cons_append, List.append_assoc, List.cons.injEq, true_and] at he
      simp only [List.length_cons, List.length_append] at hn
      obtain ⟨rfl, rfl⟩ := hs.items hi hi' (by omega) he (.cons (by decide)) (.cons (by decide))
      exact ⟨rfl, rfl⟩
    | subscript _ => simp at he
    | member => simp at he
  | subscript hi =>
    cases h' with
    | call _ => simp at he
    | subscript hi' =>
      simp only [List.cons_append, List.append_assoc, List.cons.injEq, true_and] at he
      simp only [List.length_cons, List.length_append] at hn
      obtain ⟨rfl, rfl⟩ := hs (by omega) hi hi' he (Closed.cons (by decide)).stops
        (Closed.cons (by decide)).stops
      exact ⟨rfl, rfl⟩
    | member => simp at he
  | member =>
    cases h' with
    | call _ => simp at he
    | subscript _ => simp at he
    | member =>
      simp only [List.cons_append, List.cons.injEq, Token.word.injEq, true_and] at he
      obtain ⟨rfl, -⟩ := he
      exact ⟨rfl, rfl⟩

theorem Settled.trailers (hs : Settled .disjunction n) (h : Trailers us ps)
    (h' : Trailers us' ps') (hn : us.length ≤ n) (he : us ++ rest = us' ++ rest')
    (hrest : Stops .primary rest) (hrest' : Stops .primary rest') : us = us' ∧ ps = ps' := by
  have hno {rest ws rest' : List Token} {p : Trailer} (hrest : Stops .primary rest)
      (h : Trails ws p) : rest ≠ ws ++ rest' := by
    obtain ⟨t, ws', rfl, ht⟩ := h.exists_head
    rintro rfl
    exact Nat.ne_of_lt (hrest t rfl) ht
  induction h generalizing us' ps' with
  | nil =>
    cases h' with
    | nil => exact ⟨rfl, rfl⟩
    | cons hp' _ =>
      rw [List.nil_append, List.append_assoc] at he
      exact (hno hrest hp' he).elim
  | cons hp _ ih =>
    rw [List.length_append] at hn
    cases h' with
    | nil =>
      rw [List.nil_append, List.append_assoc] at he
      exact (hno hrest' hp he.symm).elim
    | cons hp' hps' =>
      rw [List.append_assoc, List.append_assoc] at he
      obtain ⟨rfl, rfl⟩ := hs.trails hp hp' (by omega) he
      obtain ⟨rfl, rfl⟩ := ih hps' (by omega) (List.append_cancel_left he)
      exact ⟨rfl, rfl⟩

theorem Settled.primary (hs : Settled .atom n) (hd : Settled .disjunction (n - 1)) :
    Settled .primary n := by
  intro ts ts' rest rest' e e' hn h h' he hrest hrest'
  obtain ⟨first, us, x, ps, rfl, hx, hps, rfl⟩ := trailed h
  obtain ⟨first', us', x', ps', rfl, hx', hps', rfl⟩ := trailed h'
  have hatom (rest : List Token) : Stops .atom rest := by
    intro t _
    cases t with
    | mark m =>
      unfold Token.strength
      repeat' split
      all_goals decide
    | word w =>
      unfold Token.strength
      repeat' split
      all_goals decide
    | _ => exact Nat.succ_pos _
  rw [List.length_append] at hn
  rw [List.append_assoc, List.append_assoc] at he
  obtain ⟨t, first'', rfl, -⟩ := hx.exists_starts
  rw [List.length_cons] at hn
  obtain ⟨rfl, rfl⟩ := hs (by simp; omega) hx hx' he (hatom _) (hatom _)
  obtain ⟨rfl, rfl⟩ := hd.trailers hps hps' (by omega) (List.append_cancel_left he) hrest hrest'
  exact ⟨rfl, rfl⟩

end trailers

def leaf? : Token → Option Expr
  | .word w =>
    if w ∉ keywords then some (.name w) else if w = "True" then some (.truth true)
    else if w = "False" then some (.truth false) else if w = "None" then some .nothing else none
  | .integer n => some (.integer n)
  | .decimal digits places => some (.decimal digits places)
  | .text s => some (.text s)
  | .mark _ => none

/-- One expression in parentheses is itself, several are a tuple. -/
def enclosed (xs : List Expr) : Expr :=
  match xs with
  | [x] => x
  | xs => .tuple xs

/-- The forms of atoms. -/
inductive Atomic : List Token → Expr → Prop where
  | leaf {t : Token} {e : Expr} (h : leaf? t = some e) : Atomic [t] e
  | enclosed {ts : List Token} {xs : List Expr} (h : Items ts xs) :
      Atomic (.mark "(" :: (ts ++ [.mark ")"])) (enclosed xs)
  | list {ts : List Token} {xs : List Expr} (h : Items ts xs) :
      Atomic (.mark "[" :: (ts ++ [.mark "]"])) (.list xs)
  | dictionary {ts : List Token} {es : List (Expr × Expr)} (h : Entries ts es) :
      Atomic (.mark "\x7b" :: (ts ++ [.mark "\x7d"])) (.dictionary es)

theorem Derives.atomic (h : Derives .atom ts e) : Atomic ts e := by
  cases h with
  | loosen hl _ => cases hl
  | name hn => exact .leaf (if_pos hn)
  | truth value => cases value <;> exact .leaf (by simp [leaf?, keywords])
  | nothing => exact .leaf (by simp [leaf?, keywords])
  | integer _ => exact .leaf rfl
  | decimal _ _ => exact .leaf rfl
  | text _ => exact .leaf rfl
  | group h =>
    have hi := Items.cons h .nil
    rw [List.append_nil] at hi
    exact .enclosed hi
  | tuple h hl =>
    have ht := Atomic.enclosed h
    unfold Syntax.enclosed at ht
    split at ht
    · exact (hl rfl).elim
    · exact ht
  | list h => exact .list h
  | dictionary h => exact .dictionary h

theorem Settled.atom (hs : Settled .disjunction (n - 1)) : Settled .atom n := by
  intro ts ts' rest rest' e e' hn h h' he _ _
  have hmark {m : String} {e : Expr} : leaf? (.mark m) ≠ some e := nofun
  have h' := h'.atomic
  cases h.atomic with
  | leaf hleaf =>
    cases h' with
    | leaf hleaf' =>
      obtain ⟨rfl, -⟩ := List.cons.inj he
      exact ⟨rfl, Option.some.inj (hleaf.symm.trans hleaf')⟩
    | _ => exact (hmark ((List.cons.inj he).1 ▸ hleaf)).elim
  | enclosed hi =>
    simp only [List.length_cons, List.length_append] at hn
    cases h' with
    | leaf hleaf' => exact (hmark ((List.cons.inj he).1 ▸ hleaf')).elim
    | enclosed hi' =>
      simp only [List.cons_append, List.append_assoc, List.cons.injEq, true_and] at he
      obtain ⟨rfl, rfl⟩ := hs.items hi hi' (by omega) he (.cons (by decide)) (.cons (by decide))
      exact ⟨rfl, rfl⟩
    | _ => simp at he
  | list hi =>
    simp only [List.length_cons, List.length_append] at hn
    cases h' with
    | leaf hleaf' => exact (hmark ((List.cons.inj he).1 ▸ hleaf')).elim
    | list hi' =>
      simp only [List.cons_append, List.append_assoc, List.cons.injEq, true_and] at he
      obtain ⟨rfl, rfl⟩ := hs.items hi hi' (by omega) he (.cons (by decide)) (.cons (by decide))
      exact ⟨rfl, rfl⟩
    | _ => simp at he
  | dictionary hi =>
    simp only [List.length_cons, List.length_append] at hn
    cases h' with
    | leaf hleaf' => exact (hmark ((List.cons.inj he).1 ▸ hleaf')).elim
    | dictionary hi' =>
      simp only [List.cons_append, List.append_assoc, List.cons.injEq, true_and] at he
      obtain ⟨rfl, rfl⟩ := hs.entries hi hi' (by omega) he (.cons (by decide)) (.cons (by decide))
      exact ⟨rfl, rfl⟩
    | _ => simp at he

/-- On every level a phrase and its tree are told by the tokens, whatever comes after. -/
theorem settled (l : Level) (n : Nat) : Settled l n := by
  -- by the length of the text: what stands in brackets or behind a prefix is shorter
  induction n using Nat.strongRecOn generalizing l with
  | _ n ih =>
    have hbrackets : Settled .disjunction (n - 1) := by
      cases n with
      | zero =>
        intro ts ts' rest rest' e e' hn h
        obtain ⟨t, us, rfl, -⟩ := h.exists_starts
        cases hn
      | succ n => exact ih n (Nat.lt_succ_self n) .disjunction
    have hword : Function.Injective Token.word := fun _ _ h => Token.word.inj h
    have hmark : Function.Injective Token.mark := fun _ _ h => Token.mark.inj h
    have hatom : Settled .atom n := Settled.atom hbrackets
    have hprimary : Settled .primary n := hatom.primary hbrackets
    have hpower : Settled .power n := hprimary.power fun m hm => ih m hm .factor
    have hfactor : Settled .factor n := hpower.of_prefixed (fun m hm => ih m hm .factor) prefixed_factor rfl (by
      rintro (h | ⟨-, h⟩)
      · exact absurd h (by decide)
      · exact absurd h (by decide))
    have hterm : Settled .term n := hfactor.of_spined spined_term (by decide) (by decide) hmark
    have hsum : Settled .sum n := hterm.of_spined spined_sum (by decide) (by decide) hmark
    have hcomparison : Settled .comparison n := hsum.of_spined spined_comparison (by decide) (by decide) hmark
    have hinversion : Settled .inversion n := hcomparison.of_prefixed (fun m hm => ih m hm .inversion) prefixed_inversion rfl (by
      rintro (h | h | ⟨-, h⟩)
      · exact absurd h (by decide)
      · exact absurd h (by decide)
      · exact absurd h (by decide))
    have hconjunction : Settled .conjunction n := hinversion.of_spined spined_conjunction (by decide) (by decide) hword
    have hdisjunction : Settled .disjunction n := hconjunction.of_spined spined_disjunction (by decide) (by decide) hword
    cases l <;> assumption

/-- A text is read as one tree at most. -/
theorem Parses.unique {code : String} (h : Parses code e) (h' : Parses code e') : e = e' := by
  obtain ⟨ts, hts, hd⟩ := h
  obtain ⟨ts', hts', hd'⟩ := h'
  obtain rfl := Option.some.inj (hts.symm.trans hts')
  have hstops : Stops .disjunction [] := fun _ ht => nomatch ht
  exact (settled .disjunction ts.length (Nat.le_refl _) hd hd' rfl hstops hstops).2

end BlockProgram.Python.Syntax
