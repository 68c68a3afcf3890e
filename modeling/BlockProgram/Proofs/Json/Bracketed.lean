import BlockProgram.Proofs.Json.Outcome

/-! Lists and objects as they are written and read back, item by item. -/
namespace BlockProgram.Json

open Value Reader

variable {α σ ι : Type} {level inner : Nat} {text : ι → List Char} {rest : List Char}

/-- The items after the first one, and the end of the bracket. -/
def more (inner level : Nat) (closing : Char) (items : List (List Char)) (rest : List Char) : List Char :=
  items.flatMap (fun item => ',' :: (lineBreak inner ++ item)) ++ (lineBreak level ++ closing :: rest)

theorem more_nil (inner level : Nat) (closing : Char) (rest : List Char) :
    more inner level closing [] rest = lineBreak level ++ closing :: rest := rfl

private theorem more_cons (inner level : Nat) (closing : Char) (item : List Char) (items : List (List Char))
    (rest : List Char) : more inner level closing (item :: items) rest =
      ',' :: (lineBreak inner ++ (item ++ more inner level closing items rest)) := by
  simp [more]

theorem bracketed_cons (level : Nat) (opening closing : Char) (item : List Char)
    (items : List (List Char)) (rest : List Char) :
    bracketed level opening closing (item :: items) ++ rest =
      opening :: (lineBreak (level + 1) ++ (item ++ more (level + 1) level closing items rest)) := by
  simp [bracketed, more]

theorem ended_more {closing : Char} {items : List (List Char)} :
    Ended (more inner level closing items rest) := by
  intro c hc
  cases items with
  | nil => exact .inr (Option.some.inj hc).symm
  | cons item items =>
    rw [more_cons] at hc
    exact .inl (Option.some.inj hc).symm

/-- There is a character for every item. -/
theorem length_le_more (inner level : Nat) (closing : Char) (items : List (List Char))
    (rest : List Char) : items.length ≤ (more inner level closing items rest).length := by
  induction items with
  | nil => exact Nat.zero_le _
  | cons item items ih =>
    rw [more_cons]
    simp only [List.length_cons, List.length_append] at ih ⊢
    omega

def OpensObject (item : List Char) : Prop := ∃ s, item = '\x7b' :: s

private theorem outcome_elements_cons {element : Reader α} {fuel : Nat} {first : Bool} {a? : Option α}
    {as? : Option (List α)} {s s' s'' s''' : List Char}
    (hgo : outcome (hasElement first) s = some (true, s'))
    (hread : outcome element s' = a?.map (·, s''))
    (hrest : outcome (elements element fuel false) s'' = as?.map (·, s''')) :
    outcome (elements element (fuel + 1) first) s =
      (a?.bind fun a => as?.map (a :: ·)).map (·, s''') := by
  simp only [elements, outcome_bind, hgo, Option.bind_some, if_true, hread]
  cases a? with
  | none => rfl
  | some a =>
    simp only [Option.map_some, Option.bind_some, hrest]
    cases as? <;> rfl

private theorem mapM_cons (f : ι → Option α) (x : ι) (xs : List ι) :
    (x :: xs).mapM f = (f x).bind fun a => (xs.mapM f).map (a :: ·) := by
  rw [List.mapM_cons]
  cases f x with
  | none => rfl
  | some a => cases xs.mapM f <;> rfl

private theorem outcome_elements {element : Reader α} {xs : List ι} {a? : ι → Option α}
    (h : ∀ x ∈ xs, Meets element (text x) (a? x)) (ho : ∀ x ∈ xs, OpensObject (text x))
    {fuel : Nat} (hf : xs.length < fuel) :
    outcome (elements element fuel false) (more inner level ']' (xs.map text) rest) =
      (xs.mapM a?).map (·, ']' :: rest) := by
  obtain ⟨fuel, rfl⟩ : ∃ n, fuel = n + 1 := ⟨fuel - 1, by omega⟩
  induction xs generalizing fuel with
  | nil =>
    have hpeek := outcome_peek (s := rest) (gap_lineBreak level) (c := ']') (by decide)
    simp [elements, hasElement, more_nil, hpeek]
  | cons x xs ih =>
    obtain ⟨hx, hxs⟩ := List.forall_mem_cons.mp h
    obtain ⟨⟨s, hs⟩, hos⟩ := List.forall_mem_cons.mp ho
    obtain ⟨fuel, rfl⟩ : ∃ n, fuel = n + 1 := ⟨fuel - 1, by simp at hf; omega⟩
    have hgo : outcome (hasElement false) (more inner level ']' ((x :: xs).map text) rest) =
        some (true, text x ++ more inner level ']' (xs.map text) rest) := by
      have hcomma (s : List Char) := outcome_peek_cons (s := s) (c := ',') (by decide)
      have hopen (s : List Char) :=
        outcome_peek (s := s) (gap_lineBreak inner) (c := '\x7b') (by decide)
      rw [List.map_cons, more_cons, hs]
      simp [hasElement, hcomma, hopen]
    rw [mapM_cons]
    exact outcome_elements_cons hgo (hx [] _ gap_nil ended_more)
      (ih hxs hos fuel (by simpa using hf))

/-- A list is read back if each of its elements is. -/
theorem meets_list {element : Reader α} {xs : List ι} {a? : ι → Option α}
    (h : ∀ x ∈ xs, Meets element (text x) (a? x)) (ho : ∀ x ∈ xs, OpensObject (text x)) :
    Meets (Reader.list element) (bracketed level '[' ']' (xs.map text)) (xs.mapM a?) := by
  intro gap rest hg _
  have hopen (s : List Char) := outcome_peek (s := s) hg (c := '[') (by decide)
  have hclose := outcome_peek_cons (s := rest) (c := ']') (by decide)
  have hall : ∃ s, bracketed level '[' ']' (xs.map text) ++ rest = '[' :: s ∧
      outcome (allElements element) s = (xs.mapM a?).map (·, ']' :: rest) := by
    cases xs with
    | nil => exact ⟨']' :: rest, rfl, by simp [allElements, elements, hasElement, hclose]⟩
    | cons x xs =>
      obtain ⟨hx, hxs⟩ := List.forall_mem_cons.mp h
      obtain ⟨⟨s, hs⟩, hos⟩ := List.forall_mem_cons.mp ho
      refine ⟨_, by rw [List.map_cons, bracketed_cons], ?_⟩
      have hgo : outcome (hasElement true)
          (lineBreak (level + 1) ++ (text x ++ more (level + 1) level ']' (xs.map text) rest)) =
            some (true, text x ++ more (level + 1) level ']' (xs.map text) rest) := by
        have hpeek (s : List Char) :=
          outcome_peek (s := s) (gap_lineBreak (level + 1)) (c := '\x7b') (by decide)
        simp [hasElement, hs, hpeek]
      have hlen := length_le_more (level + 1) level ']' (xs.map text) rest
      rw [List.length_map] at hlen
      simp only [allElements, outcome_bind, outcome_get, Option.bind_some]
      rw [mapM_cons]
      refine outcome_elements_cons hgo (hx [] _ gap_nil ended_more) (outcome_elements hxs hos ?_)
      simp only [List.length_append, hs, List.length_cons]
      omega
  obtain ⟨s, hs, hread⟩ := hall
  rw [hs]
  simp only [Reader.list, inList, outcome_bind, hopen, Option.bind_some, outcome_skip,
    outcome_settle, hread]
  cases xs.mapM a? with
  | none => rfl
  | some as => simp [endList, hclose]

def memberText (name : String) (value : List Char) : List Char :=
  stringText name ++ ':' :: ' ' :: value

/-- The reader makes `a?` of the value of a member, from the colon on. -/
def Follows (read : Reader α) (value : List Char) (a? : Option α) : Prop :=
  ∀ rest, Ended rest → outcome read (':' :: ' ' :: (value ++ rest)) = a?.map (·, rest)

theorem outcome_colon (s : List Char) : outcome colon (':' :: s) = some ((), s) := by
  simp [colon, outcome_peek_cons (s := s) (c := ':') (by decide)]

theorem Meets.follows {read : Reader α} {value : List Char} {a? : Option α} (h : Meets read value a?) :
    Follows (do colon; read) value a? := by
  intro rest hr
  simpa [outcome_colon] using h [' '] rest gap_blank hr

private theorem outcome_members_cons {member : σ → String → Reader σ} {fuel : Nat} {first : Bool}
    {acc : σ} {acc? : Option σ} {step : σ → Option σ} {name : String} {value s s' s'' : List Char}
    (hgo : outcome (hasKey first) s =
      some (true, (name.toList.flatMap escapedChar ++ '"' :: ':' :: ' ' :: (value ++ s'))))
    (hs' : Ended s') (hread : Follows (member acc name) value acc?)
    (hrest : ∀ acc, outcome (members member fuel false acc) s' = (step acc).map (·, s'')) :
    outcome (members member (fuel + 1) first acc) s = (acc?.bind step).map (·, s'') := by
  simp only [members, outcome_bind, hgo, Option.bind_some, if_true, outcome_openString, hread s' hs']
  cases acc? with
  | none => rfl
  | some acc => simp only [Option.map_some, Option.bind_some, hrest]

section members

variable {member : σ → String → Reader σ} {items : List ι} {name : ι → String}
  {step : σ → ι → Option σ} (h : ∀ i ∈ items, ∀ acc, Follows (member acc (name i)) (text i) (step acc i))
include h

private theorem outcome_members {fuel : Nat} (hf : items.length < fuel) (acc : σ) :
    outcome (members member fuel false acc)
        (more inner level '\x7d' (items.map fun i => memberText (name i) (text i)) rest) =
      (items.foldlM step acc).map (·, '\x7d' :: rest) := by
  obtain ⟨fuel, rfl⟩ : ∃ n, fuel = n + 1 := ⟨fuel - 1, by omega⟩
  induction items generalizing fuel acc with
  | nil =>
    have hpeek := outcome_peek (s := rest) (gap_lineBreak level) (c := '\x7d') (by decide)
    simp [members, hasKey, more_nil, hpeek]
  | cons i items ih =>
    obtain ⟨hi, his⟩ := List.forall_mem_cons.mp h
    obtain ⟨fuel, rfl⟩ : ∃ n, fuel = n + 1 := ⟨fuel - 1, by simp at hf; omega⟩
    rw [List.foldlM_cons]
    refine outcome_members_cons ?_ ended_more (hi acc)
      fun acc => ih his acc fuel (by simpa using hf)
    have hcomma (s : List Char) := outcome_peek_cons (s := s) (c := ',') (by decide)
    have hquote (s : List Char) :=
      outcome_peek (s := s) (gap_lineBreak inner) (c := '"') (by decide)
    rw [List.map_cons, more_cons]
    simp [hasKey, memberText, stringText, hcomma, hquote]

/-- All members of an object, from behind its opening brace on. -/
theorem outcome_allMembers (start : σ) (level : Nat) (rest : List Char) :
    ∃ s, bracketed level '\x7b' '\x7d' (items.map fun i => memberText (name i) (text i)) ++ rest =
        '\x7b' :: s ∧
      outcome (allMembers member start) s = (items.foldlM step start).map (·, '\x7d' :: rest) := by
  have hclose := outcome_peek_cons (s := rest) (c := '\x7d') (by decide)
  cases items with
  | nil => exact ⟨'\x7d' :: rest, rfl, by simp [allMembers, members, hasKey, hclose]⟩
  | cons i items =>
    obtain ⟨hi, his⟩ := List.forall_mem_cons.mp h
    refine ⟨_, by rw [List.map_cons, bracketed_cons], ?_⟩
    have hlen := length_le_more (level + 1) level '\x7d'
      (items.map fun i => memberText (name i) (text i)) rest
    rw [List.length_map] at hlen
    have hended : Ended (more (level + 1) level '\x7d'
        (items.map fun i => memberText (name i) (text i)) rest) := ended_more
    simp only [allMembers, outcome_bind, outcome_get, Option.bind_some, List.foldlM_cons]
    refine outcome_members_cons ?_ hended (hi start)
      fun acc => outcome_members his ?_ acc
    · have hquote (s : List Char) :=
        outcome_peek (s := s) (gap_lineBreak (level + 1)) (c := '"') (by decide)
      simp [hasKey, memberText, stringText, hquote]
    · have hpos : 0 < (lineBreak (level + 1)).length := Nat.succ_pos _
      simp only [List.length_append]
      omega

end members

/-- The object is left behind the brace that ends it. -/
theorem outcome_inObject {content : Reader α} {a? : Option α} {s : List Char}
    (h : outcome content s = a?.map (·, '\x7d' :: rest)) :
    outcome (inObject content) ('\x7b' :: s) = a?.map (·, rest) := by
  have hclose := outcome_peek_cons (s := rest) (c := '\x7d') (by decide)
  simp only [inObject, outcome_bind, Option.bind_some, outcome_skip, outcome_settle, h]
  cases a? with
  | none => rfl
  | some a => simp [endObject, hclose]

theorem renderAll_eq (level : Nat) (vs : List Value) : renderAll level vs = vs.map (render level) := by
  induction vs with
  | nil => rfl
  | cons v vs ih => rw [renderAll, ih, List.map_cons]

theorem renderMembers_eq (level : Nat) (ms : List (String × Value)) :
    renderMembers level ms = ms.map fun m => memberText m.1 (render level m.2) := by
  induction ms with
  | nil => rfl
  | cons m ms ih => rw [renderMembers, ih, List.map_cons, memberText]

end BlockProgram.Json
