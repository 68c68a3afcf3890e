import BlockProgram.Proofs.Python.Syntax.Offside
import BlockProgram.Proofs.Python.Syntax.Spelling
import BlockProgram.Proofs.Python.Syntax.Unambiguous

/-! The lines of statements: what they say, and which texts say it. A line is read in one way at most. -/
namespace BlockProgram.Python.Syntax

/-- What a line says: a simple statement, or the head of one with a suite. -/
inductive Head where
  | expression (e : Expr)
  | assignment (name : String) (value : Expr)
  | result (value : Option Expr)
  | pass
  | forLoop (name : String) (list : Expr)
  /-- A condition after `while`, `if` or `elif`. -/
  | condition (keyword : String) (e : Expr)
  | elseBranch
  /-- A function without parameters. -/
  | definition (name : String)

/-- Whether a suite belongs to the line. -/
def Head.opens : Head → Bool
  | forLoop _ _ | condition _ _ | elseBranch | definition _ => true
  | _ => false

def conditionals : List String := ["while", "if", "elif"]

/-- The tokens are a line that says `h`. -/
inductive Heads : List Token → Head → Prop where
  | expression {ts : List Token} {e : Expr} (h : Derives .disjunction ts e) : Heads ts (.expression e)
  | assignment {ts : List Token} {n : String} {e : Expr} (hn : n ∉ keywords)
      (h : Derives .disjunction ts e) : Heads (.word n :: .mark "=" :: ts) (.assignment n e)
  | noResult : Heads [.word "return"] (.result none)
  | result {ts : List Token} {e : Expr} (h : Derives .disjunction ts e) :
      Heads (.word "return" :: ts) (.result (some e))
  | pass : Heads [.word "pass"] .pass
  | forLoop {ts : List Token} {n : String} {e : Expr} (hn : n ∉ keywords)
      (h : Derives .disjunction ts e) :
      Heads (.word "for" :: .word n :: .word "in" :: (ts ++ [.mark ":"])) (.forLoop n e)
  | condition {ts : List Token} {keyword : String} {e : Expr} (hk : keyword ∈ conditionals)
      (h : Derives .disjunction ts e) :
      Heads (.word keyword :: (ts ++ [.mark ":"])) (.condition keyword e)
  | elseBranch : Heads [.word "else", .mark ":"] .elseBranch
  | definition {n : String} (hn : n ∉ keywords) :
      Heads [.word "def", .word n, .mark "(", .mark ")", .mark ":"] (.definition n)

/-- The line is read as `h`. -/
def Says (line : String) (h : Head) : Prop := ∃ ts, tokens line.toList = some ts ∧ Heads ts h

variable {l : Level} {t : Token} {ts us : List Token} {e : Expr} {ops : List String}
  {make : String → Token} {ys : List (String × Expr)} {h h' : Head} {line code n keyword : String}
  {cs rest : List Char}

/-- Tokens are read as one expression at most. -/
theorem Derives.unique {e' : Expr} (hd : Derives .disjunction ts e) (hd' : Derives .disjunction ts e') :
    e = e' := by
  have hstops : Stops .disjunction [] := fun _ ht => nomatch ht
  exact (settled .disjunction ts.length (Nat.le_refl _) hd hd' rfl hstops hstops).2

/-- The words that start lines other than expressions and assignments. -/
def statementWords : List String := ["return", "pass", "for", "while", "if", "elif", "else", "def"]

private theorem statementWords_not_starts (hn : n ∈ statementWords) :
    n ∈ keywords ∧ ¬ Starts .disjunction (.word n) := by
  have hall : ∀ n ∈ statementWords, n ∈ keywords ∧ n ∉ ["True", "False", "None"] ∧ n ≠ "not" := by
    decide
  obtain ⟨hkeyword, hvalue, hnot⟩ := hall n hn
  refine ⟨hkeyword, ?_⟩
  rintro (h | h | ⟨h, -⟩)
  · exact h hkeyword
  · exact hvalue h
  · exact hnot h

/-- An assignment is no expression. -/
theorem not_derives_assignment (hn : n ∉ keywords) :
    ¬ Derives .disjunction (.word n :: .mark "=" :: ts) e := by
  intro hd
  have hname : Derives .disjunction [.word n] (.name n) := (Derives.name hn).loosenTo (Nat.zero_le _)
  have hstops : Stops .disjunction [] := fun _ ht => nomatch ht
  have hstops' : Stops .disjunction (.mark "=" :: ts) := stops_cons (by decide)
  have heq : [.word n] ++ .mark "=" :: ts = (.word n :: .mark "=" :: ts) ++ [] := by simp
  have hsame := (settled .disjunction _ (Nat.le_refl _) hname hd heq hstops' hstops).1
  cases hsame

private theorem not_derives_statement (hn : n ∈ statementWords) :
    ¬ Derives .disjunction (.word n :: ts) e := fun hd =>
  hd.head?_ne (statementWords_not_starts hn).2 rfl

/-- What the first tokens of a line say by themselves, or else together with an expression in it. -/
private def frame (ts : List Token) : Head ⊕ (List Token × (Expr → Head)) :=
  match ts with
  | [.word "return"] => .inl (.result none)
  | .word "return" :: us => .inr (us, fun e => .result (some e))
  | [.word "pass"] => .inl .pass
  | .word "for" :: .word n :: .word "in" :: us => .inr (us.dropLast, .forLoop n)
  | [.word "else", .mark ":"] => .inl .elseBranch
  | .word "def" :: .word n :: _ => .inl (.definition n)
  | .word n :: us =>
    if n ∈ conditionals then .inr (us.dropLast, .condition n)
    else if n ∉ keywords ∧ us.head? = some (.mark "=") then .inr (us.tail, .assignment n)
    else .inr (ts, .expression)
  | ts => .inr (ts, .expression)

private theorem frame_expression (hd : Derives .disjunction ts e) :
    frame ts = .inr (ts, .expression) := by
  have hconditionals : conditionals ⊆ statementWords := by decide
  unfold frame
  split
  · exact (not_derives_statement (by decide) hd).elim
  · exact (not_derives_statement (by decide) hd).elim
  · exact (not_derives_statement (by decide) hd).elim
  · exact (not_derives_statement (by decide) hd).elim
  · exact (not_derives_statement (by decide) hd).elim
  · exact (not_derives_statement (by decide) hd).elim
  · split
    · rename_i hk
      exact (not_derives_statement (hconditionals hk) hd).elim
    · split
      · rename_i hassign
        obtain ⟨us, rfl⟩ := List.head?_eq_some_iff.mp hassign.2
        exact (not_derives_assignment hassign.1 hd).elim
      · rfl
  · rfl

private theorem frame_assignment (hn : n ∉ keywords) :
    frame (.word n :: .mark "=" :: ts) = .inr (ts, .assignment n) := by
  have hne : n ≠ "return" := by
    rintro rfl
    exact hn (by decide)
  have hkeywords : conditionals ⊆ keywords := by decide
  have hconditional : n ∉ conditionals := fun hk => hn (hkeywords hk)
  simp [frame, hconditional, hn]

private theorem Heads.of_frame (hh : Heads ts h) : match frame ts with
    | .inl h' => h = h'
    | .inr (us, make) => ∃ e, h = make e ∧ Derives .disjunction us e := by
  cases hh with
  | expression hd =>
    rw [frame_expression hd]
    exact ⟨_, rfl, hd⟩
  | assignment hn hd =>
    rw [frame_assignment hn]
    exact ⟨_, rfl, hd⟩
  | result hd =>
    obtain ⟨t, us, rfl, -⟩ := hd.exists_starts
    exact ⟨_, rfl, hd⟩
  | forLoop hn hd => exact ⟨_, rfl, by rwa [List.dropLast_concat]⟩
  | condition hk hd =>
    simp only [conditionals, List.mem_cons, List.not_mem_nil, or_false] at hk
    rcases hk with rfl | rfl | rfl
    all_goals exact ⟨_, rfl, by rwa [List.dropLast_concat]⟩
  | _ => rfl

/-- The tokens of a line say one thing at most. -/
theorem Heads.unique (hh : Heads ts h) (hh' : Heads ts h') : h = h' := by
  have hframe := hh.of_frame
  have hframe' := hh'.of_frame
  split at hframe
  · rename_i he
    rw [he] at hframe'
    exact hframe.trans hframe'.symm
  · rename_i he
    rw [he] at hframe'
    obtain ⟨e, rfl, hd⟩ := hframe
    obtain ⟨e', rfl, hd'⟩ := hframe'
    rw [hd.unique hd']

/-- A line says one thing at most. -/
theorem Says.unique (hs : Says line h) (hs' : Says line h') : h = h' := by
  obtain ⟨ts, hts, hh⟩ := hs
  obtain ⟨ts', hts', hh'⟩ := hs'
  obtain rfl := Option.some.inj (hts.symm.trans hts')
  exact hh.unique hh'

def Ends (ts : List Token) : Prop := ∃ t ∈ ts.getLast?, t ≠ .mark ":"

private theorem ends_single (ht : t ≠ .mark ":") : Ends [t] := ⟨t, rfl, ht⟩

theorem Ends.append (hts : Ends ts) : Ends (us ++ ts) := by
  obtain ⟨t, hlast, ht⟩ := hts
  refine ⟨t, ?_, ht⟩
  rw [List.getLast?_append, Option.mem_def.mp hlast]
  rfl

theorem Ends.cons (hts : Ends ts) : Ends (t :: ts) :=
  have happend : Ends ([t] ++ ts) := hts.append
  happend

private theorem ends_closed {m : String} (hm : m ≠ ":") : Ends (t :: (ts ++ [.mark m])) :=
  (ends_single fun he => hm (Token.mark.inj he)).append.cons

mutual

/-- A phrase does not end in a colon. -/
theorem Derives.ends : ∀ {l : Level} {ts : List Token} {e : Expr}, Derives l ts e → Ends ts
  | _, _, _, .loosen _ h => Derives.ends h
  | _, _, _, .any _ hl hne => (Links.ends hl hne).append
  | _, _, _, .all _ hl hne => (Links.ends hl hne).append
  | _, _, _, .not h => (Derives.ends h).cons
  | _, _, _, .compare _ hl hne => (Links.ends hl hne).append
  | _, _, _, .sum _ _ h' => (Derives.ends h').cons.append
  | _, _, _, .product _ _ h' => (Derives.ends h').cons.append
  | _, _, _, .negative h => (Derives.ends h).cons
  | _, _, _, .power _ h' => (Derives.ends h').cons.append
  | _, _, _, .call _ _ => (ends_closed (by decide)).append
  | _, _, _, .subscript _ _ => (ends_closed (by decide)).append
  | _, _, _, .member _ _ => (ends_single (by simp)).cons.append
  | _, _, _, .name _ => ends_single (by simp)
  | _, _, _, .truth _ => ends_single (by simp)
  | _, _, _, .nothing => ends_single (by simp)
  | _, _, _, .integer _ => ends_single (by simp)
  | _, _, _, .decimal _ _ => ends_single (by simp)
  | _, _, _, .text _ => ends_single (by simp)
  | _, _, _, .group _ => ends_closed (by decide)
  | _, _, _, .tuple _ _ => ends_closed (by decide)
  | _, _, _, .list _ => ends_closed (by decide)
  | _, _, _, .dictionary _ => ends_closed (by decide)

private theorem Links.ends : ∀ {make : String → Token} {ops : List String} {l : Level} {us : List Token}
    {ys : List (String × Expr)}, Links make ops l us ys → ys ≠ [] → Ends us
  | _, _, _, _, _, .nil, hne => (hne rfl).elim
  | _, _, _, _, _ :: ys, .cons _ h hl, _ => by
    by_cases hys : ys = []
    · subst hys
      cases hl
      rw [List.append_nil]
      exact (Derives.ends h).cons
    · exact (Links.ends hl hys).append.cons

end

private theorem Heads.ends (hh : Heads ts h) (ho : h.opens = false) : Ends ts := by
  cases hh with
  | expression hd => exact hd.ends
  | assignment _ hd => exact hd.ends.cons.cons
  | noResult => exact ends_single (by simp)
  | result hd => exact hd.ends.cons
  | pass => exact ends_single (by simp)
  | _ => cases ho

/-- A line that says `h`, without blanks before it; it ends in a colon exactly if a suite belongs to it. -/
structure Line (h : Head) (line : String) : Prop where
  reads : Says line h
  leads : Opens Leads line
  opens : opensSuite line = h.opens

theorem Line.inline (hl : Line h line) : ∀ c ∈ line.toList, Inline c := by
  obtain ⟨ts, hts, -⟩ := hl.reads
  exact inline_of_tokens hts

private theorem Says.opensSuite_eq_false (hs : Says line h) (ho : h.opens = false) :
    opensSuite line = false := by
  obtain ⟨ts, hts, hh⟩ := hs
  obtain ⟨t, hlast, ht⟩ := hh.ends ho
  refine Bool.eq_false_iff.mpr fun hcolon => ht ?_
  have hlast' := colon_of_tokens hts (of_decide_eq_true hcolon)
  exact Option.some.inj (hlast.symm.trans hlast')

private theorem opensSuite_append_colon (line : String) : opensSuite (line ++ ":") = true := by
  simp [opensSuite]

private theorem Line.of_not_opens (hleads : Opens Leads line) (hs : Says line h) (ho : h.opens = false) :
    Line h line := ⟨hs, hleads, (hs.opensSuite_eq_false ho).trans ho.symm⟩

theorem line_expression (hp : Phrase .disjunction e code) : Line (.expression e) code := by
  obtain ⟨hleads, ts, hreads, hd⟩ := hp
  exact .of_not_opens hleads ⟨ts, hreads.tokens_eq, .expression hd⟩ rfl

/-- An expression after fixed tokens. -/
theorem says_before {pre : String} {ps : List Token} (hpre : Reads Leads pre ps)
    (hp : Phrase .disjunction e code)
    (hh : ∀ ts, Derives .disjunction ts e → Heads (ps ++ ts) h) : Says (pre ++ code) h := by
  obtain ⟨hleads, ts, hreads, hd⟩ := hp
  exact ⟨_, (hpre.append hreads hleads).tokens_eq, hh ts hd⟩

/-- An expression between fixed tokens and a colon. -/
theorem says_header {pre : String} {ps : List Token} (hpre : Reads Leads pre ps)
    (hp : Phrase .disjunction e code)
    (hh : ∀ ts, Derives .disjunction ts e → Heads (ps ++ (ts ++ [.mark ":"])) h) :
    Says (pre ++ code ++ ":") h := by
  obtain ⟨hleads, ts, hreads, hd⟩ := hp
  have hcolon : Reads (· ∉ longer ":") ":" [.mark ":"] := reads_mark (by decide)
  have hall := (hpre.append hreads hleads).append hcolon ⟨':', rfl, by decide⟩
  refine ⟨_, hall.tokens_eq, ?_⟩
  rw [List.append_assoc]
  exact hh ts hd

theorem line_assignment (hn : Proper n) (hp : Phrase .disjunction e code) :
    Line (.assignment n e) (n ++ " = " ++ code) := by
  have hpre : Reads Leads (n ++ (" " ++ "=" ++ " ")) [.word n, .mark "="] :=
    (reads_word hn.word).append (reads_operator (by decide) (by decide)) ⟨' ', rfl, endsWord_of_joins (by decide)⟩
  exact .of_not_opens (leads_word hn.word).append.append
    (says_before hpre hp fun _ => .assignment hn.name) rfl

/-- A word and a blank after it. -/
theorem reads_word_blank {follow : Char → Prop} (hw : Word keyword) :
    Reads follow (keyword ++ " ") [.word keyword] :=
  (reads_word hw).append .blank ⟨' ', rfl, endsWord_of_joins (by decide)⟩

theorem line_noResult : Line (.result none) "return" :=
  .of_not_opens ⟨'r', rfl, by decide⟩ ⟨_, by decide, .noResult⟩ rfl

theorem line_result (hp : Phrase .disjunction e code) :
    Line (.result (some e)) ("return " ++ code) :=
  have hpre : Reads Leads ("return" ++ " ") [.word "return"] := reads_word_blank (by decide)
  .of_not_opens ⟨'r', by simp, by decide⟩ (says_before hpre hp fun _ => .result) rfl

theorem line_pass : Line .pass "pass" :=
  .of_not_opens ⟨'p', rfl, by decide⟩ ⟨_, by decide, .pass⟩ rfl

theorem line_forLoop (hn : Proper n) (hp : Phrase .disjunction e code) :
    Line (.forLoop n e) ("for " ++ n ++ " in " ++ code ++ ":") := by
  have hfor : Reads (fun _ => True) ("for" ++ " ") [.word "for"] := reads_word_blank (by decide)
  have hin : Reads Leads (" " ++ "in" ++ " ") [.word "in"] := reads_keyword (by decide)
  have hname : Reads Leads (n ++ (" " ++ "in" ++ " ")) [.word n, .word "in"] :=
    (reads_word hn.word).append hin ⟨' ', rfl, endsWord_of_joins (by decide)⟩
  have hpre : Reads Leads ("for" ++ " " ++ (n ++ (" " ++ "in" ++ " ")))
      [.word "for", .word n, .word "in"] :=
    hfor.append hname (hn.word.opens.mono fun _ _ => trivial).append
  rw [← String.append_assoc] at hpre
  exact ⟨says_header hpre hp fun _ => .forLoop hn.name, ⟨'f', by simp, by decide⟩,
    opensSuite_append_colon _⟩

theorem line_condition (hk : keyword ∈ conditionals) (hp : Phrase .disjunction e code) :
    Line (.condition keyword e) (keyword ++ " " ++ code ++ ":") := by
  have hwords : ∀ k ∈ conditionals, Word k := by decide
  have hpre : Reads Leads (keyword ++ " ") [.word keyword] := reads_word_blank (hwords keyword hk)
  exact ⟨says_header hpre hp fun _ => .condition hk, (leads_word (hwords keyword hk)).append.append.append,
    opensSuite_append_colon _⟩

theorem line_elseBranch : Line .elseBranch "else:" :=
  ⟨⟨_, by decide, .elseBranch⟩, ⟨'e', rfl, by decide⟩, rfl⟩

theorem line_definition (hn : Proper n) : Line (.definition n) ("def " ++ n ++ "():") := by
  have hdef : Reads (fun _ => True) ("def" ++ " ") [.word "def"] := reads_word_blank (by decide)
  have hopen : Reads (· ∉ longer "(") "(" [.mark "("] := reads_mark (by decide)
  have hclose : Reads (· ∉ longer ")") ")" [.mark ")"] := reads_mark (by decide)
  have hcolon : Reads (· ∉ longer ":") ":" [.mark ":"] := reads_mark (by decide)
  have hend : Reads (· ∉ longer ":") "():" [.mark "(", .mark ")", .mark ":"] :=
    (hopen.append hclose ⟨')', rfl, by decide⟩).append hcolon ⟨':', rfl, by decide⟩
  have hall := (hdef.append (reads_word hn.word) (hn.word.opens.mono fun _ _ => trivial)).append hend
    ⟨'(', rfl, endsWord_of_joins (by decide)⟩
  have hlast : "def " ++ n ++ "():" = "def " ++ n ++ "()" ++ ":" := by
    simp [← String.toList_inj]
  exact ⟨⟨_, hall.tokens_eq, .definition hn.name⟩, ⟨'d', by simp, by decide⟩,
    hlast ▸ opensSuite_append_colon _⟩

end BlockProgram.Python.Syntax
