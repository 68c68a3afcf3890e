import BlockProgram.Python.Generator

/-! What a recipe does whatever it is answered: which blocks it asks for, in which order, and with what
it ends. A run of the recipe does the same if the answers that it gets are of the expected kind. -/
namespace BlockProgram.Python

/-- The answers that a recipe may get: the text of a block, the identifier of a variable, and a new name. -/
structure Answers where
  fragment : BlockId → Fragment → Prop
  identifier : String → String → Prop
  fresh : String → Prop

/-- The text of statements in a row. -/
inductive Statements (A : Answers) : List BlockId → String → Prop where
  | nil : Statements A [] ""
  | cons {id : BlockId} {ids : List BlockId} {code more : String} (h : A.fragment id (.statement code))
      (hr : Statements A ids more) : Statements A (id :: ids) (code ++ more)

/-- The text of what a statement socket holds, or of `pass`, one level deeper. -/
def BodyText (s : Setting) (A : Answers) (b : Block) (socket text : String) : Prop :=
  match b.target? socket with
  | none => text = s.indent ++ "pass\n"
  | some t => ∃ code, Statements A (s.workspace.chain t) code ∧
      text = if (Recipe.indentWith s.indent code).isEmpty then s.indent ++ "pass\n"
        else Recipe.indentWith s.indent code

namespace Recipe

variable {α β : Type} {s : Setting} {A : Answers} {ids : List BlockId} {b : Block}
  {socket name : String} {bound : Precedence}

/-- The recipe asks for the blocks `ids` one after the other, ends with a result, and `Q` holds of the
result and the blocks that are left over. It gives up only where a block that it asks for does. -/
def Ensures (s : Setting) (A : Answers) (Q : α → List BlockId → Prop) :
    Recipe α → List BlockId → Prop
  | .done a, ids => Q a ids
  | .fail _, _ => False
  | .look k, ids => Ensures s A Q (k s) ids
  | .visit id k, ids => ∃ rest, ids = id :: rest ∧
      (∀ f, A.fragment id f → Ensures s A Q (k (.ok f)) rest) ∧ ∀ e, k (.error e) = .fail e
  | .variableName user k, ids => ∀ n, A.identifier user n → Ensures s A Q (k n) ids
  | .distinctName _ k, ids => ∀ n, A.fresh n → Ensures s A Q (k n) ids
  | .define _ _ k, ids => Ensures s A Q k ids

theorem Ensures.mono {Q R : α → List BlockId → Prop} {r : Recipe α} (h : r.Ensures s A Q ids)
    (hQ : ∀ a rest, Q a rest → R a rest) : r.Ensures s A R ids := by
  induction r generalizing ids with
  | done a => exact hQ a ids h
  | fail e => exact h
  | look k ih => exact ih s h
  | visit id k ih =>
    obtain ⟨rest, hids, hok, herror⟩ := h
    exact ⟨rest, hids, fun f hf => ih (.ok f) (hok f hf), herror⟩
  | variableName user k ih => exact fun n hn => ih n (h n hn)
  | distinctName base k ih => exact fun n hn => ih n (h n hn)
  | define key code k ih => exact ih h

/-- A recipe and then another one ask for the blocks of the one and then for those of the other. -/
theorem ensures_bind {Q : β → List BlockId → Prop} {r : Recipe α} {f : α → Recipe β}
    (h : r.Ensures s A (fun a rest => (f a).Ensures s A Q rest) ids) :
    (r >>= f).Ensures s A Q ids := by
  change (r.bind f).Ensures s A Q ids
  induction r generalizing ids with
  | done a => exact h
  | fail e => exact h
  | look k ih => exact ih s h
  | visit id k ih =>
    obtain ⟨rest, hids, hok, herror⟩ := h
    refine ⟨rest, hids, fun f hf => ih (.ok f) (hok f hf), fun e => ?_⟩
    dsimp only
    rw [herror]
    rfl
  | variableName user k ih => exact fun n hn => ih n (h n hn)
  | distinctName base k ih => exact fun n hn => ih n (h n hn)
  | define key code k ih => exact ih h

/-- Three recipes in a row may be grouped either way. -/
theorem bind_assoc {γ : Type} (r : Recipe α) (f : α → Recipe β) (g : β → Recipe γ) :
    r >>= f >>= g = r >>= fun a => f a >>= g := by
  change (r.bind f).bind g = r.bind fun a => (f a).bind g
  induction r with
  | done a => rfl
  | fail e => rfl
  | look k ih => exact congrArg look (funext fun s => ih s)
  | visit id k ih => exact congrArg (visit id) (funext fun r => ih r)
  | variableName user k ih => exact congrArg (variableName user) (funext fun n => ih n)
  | distinctName base k ih => exact congrArg (distinctName base) (funext fun n => ih n)
  | define key code k ih => exact congrArg (define key code) ih

/-- A run that has ended with a result, of which `Q` holds, or with an error, of which `E` holds. -/
def Ended (Q : α → Progress → Prop) (E : GenerationError → Progress → Prop) :
    Except GenerationError α × Progress → Prop
  | (.ok a, p) => Q a p
  | (.error e, p) => E e p

/-- A run that is answered as expected ends as the recipe does, or where a block failed. `I` holds
between the answers, of the blocks that are still to be asked for and of the progress. -/
theorem Ensures.run {Q : α → List BlockId → Prop} {r : Recipe α} {visit : BlockId → Run Fragment}
    {I : List BlockId → Progress → Prop} {E : GenerationError → Progress → Prop}
    (h : r.Ensures s A Q ids)
    (hvisit : ∀ id rest p, I (id :: rest) p →
      Ended (fun f p' => A.fragment id f ∧ I rest p') E (visit id p))
    (hvariable : ∀ user ids p, I ids p → A.identifier user (p.names.variableName user).1 ∧
      I ids { p with names := (p.names.variableName user).2 })
    (hdistinct : ∀ base ids p, I ids p → A.fresh (p.names.distinct base).1 ∧
      I ids { p with names := (p.names.distinct base).2 })
    (hdefine : ∀ key code ids p, I ids p → I ids (p.define key code)) {p : Progress}
    (hp : I ids p) :
    Ended (fun a p' => ∃ rest, Q a rest ∧ I rest p') E (r.run visit s p) := by
  induction r generalizing ids p with
  | done a => exact ⟨ids, h, hp⟩
  | fail e => exact h.elim
  | look k ih => exact ih s h hp
  | visit id k ih =>
    obtain ⟨rest, rfl, hok, herror⟩ := h
    have hanswer := hvisit id rest p hp
    simp only [Recipe.run]
    cases hv : visit id p with
    | mk result p' =>
      rw [hv] at hanswer
      cases result with
      | ok f => exact ih (.ok f) (hok f hanswer.1) hanswer.2
      | error e =>
        simp only [herror]
        exact hanswer
  | variableName user k ih =>
    obtain ⟨hname, hI⟩ := hvariable user ids p hp
    exact ih _ (h _ hname) hI
  | distinctName base k ih =>
    obtain ⟨hname, hI⟩ := hdistinct base ids p hp
    exact ih _ (h _ hname) hI
  | define key code k ih => exact ih h (hdefine key code ids p hp)

section parts

variable {c : BlockId} {rest : List BlockId}

theorem ensures_pure {Q : α → List BlockId → Prop} {a : α} :
    (pure a : Recipe α).Ensures s A Q ids ↔ Q a ids := Iff.rfl

private theorem ensures_block {Q : Fragment → List BlockId → Prop} (h : ∀ f, A.fragment c f → Q f rest) :
    (block c).Ensures s A Q (c :: rest) := ⟨rest, rfl, h, fun _ => rfl⟩

/-- A value socket is asked for what it holds, which has to be an expression. -/
theorem ensures_value? {Q : Option String → List BlockId → Prop}
    (hkind : ∀ c ∈ b.target? socket, ∀ code, ¬ A.fragment c (.statement code))
    (hnone : b.target? socket = none → Q none rest)
    (hsome : ∀ c ∈ b.target? socket, ∀ code level, A.fragment c (.expression code level) →
      Q (some (parenthesize code level bound)) rest) :
    (value? b socket bound).Ensures s A Q ((b.target? socket).toList ++ rest) := by
  unfold value?
  cases ht : b.target? socket with
  | none => exact hnone ht
  | some c =>
    refine ensures_bind (ensures_block fun f hf => ?_)
    cases f with
    | expression code level => exact hsome c ht code level hf
    | statement code => exact (hkind c ht code hf).elim

theorem ensures_statements {Q : String → List BlockId → Prop} {chain : List BlockId}
    (hkind : ∀ c ∈ chain, ∀ code level, ¬ A.fragment c (.expression code level))
    (hdone : ∀ code, Statements A chain code → Q code rest) :
    (statements chain).Ensures s A Q (chain ++ rest) := by
  induction chain generalizing Q with
  | nil => exact hdone "" .nil
  | cons c chain ih =>
    unfold statements
    refine ensures_bind (ensures_block fun f hf => ?_)
    cases f with
    | expression code level => exact (hkind c List.mem_cons_self code level hf).elim
    | statement code =>
      refine ensures_bind (ih (fun c hc => hkind c (List.mem_cons_of_mem _ hc)) fun more hmore => ?_)
      exact hdone _ (.cons hf hmore)

/-- A statement socket is asked for the chain that it holds, which has to be of statements. -/
theorem ensures_nested {Q : String → List BlockId → Prop}
    (hkind : ∀ h ∈ b.target? socket, ∀ c ∈ s.workspace.chain h, ∀ code level,
      ¬ A.fragment c (.expression code level))
    (hnone : b.target? socket = none → Q "" rest)
    (hsome : ∀ t ∈ b.target? socket, ∀ code, Statements A (s.workspace.chain t) code →
      Q (indentWith s.indent code) rest) :
    (nested b socket).Ensures s A Q
      ((b.target? socket).toList.flatMap s.workspace.chain ++ rest) := by
  unfold nested
  cases ht : b.target? socket with
  | none => exact hnone ht
  | some h =>
    have hstatements : (statements (s.workspace.chain h)).Ensures s A
        (fun code rest => Q (indentWith s.indent code) rest) (s.workspace.chain h ++ rest) :=
      ensures_statements (hkind h ht) (hsome h ht)
    rw [Option.toList_some, List.flatMap_singleton]
    refine ensures_bind (ensures_bind ?_)
    exact hstatements

/-- The text of a statement socket asks for the chain in it, block by block. -/
theorem ensures_body {Q : String → List BlockId → Prop}
    (hkind : ∀ h ∈ b.target? socket, ∀ c ∈ s.workspace.chain h, ∀ code level,
      ¬ A.fragment c (.expression code level))
    (hdone : ∀ text, BodyText s A b socket text → Q text rest) :
    (body b socket).Ensures s A Q
      ((b.target? socket).toList.flatMap s.workspace.chain ++ rest) := by
  unfold body
  refine ensures_bind (ensures_nested hkind (fun ht => ?_) fun t ht code hcode => ?_)
  · refine hdone _ ?_
    unfold BodyText
    rw [ht]
  · have htext : BodyText s A b socket (if (indentWith s.indent code).isEmpty
        then s.indent ++ "pass\n" else indentWith s.indent code) := by
      unfold BodyText
      rw [Option.mem_def.mp ht]
      exact ⟨code, hcode, rfl⟩
    have hQ := hdone _ htext
    split at hQ
    · rename_i hempty
      rw [if_pos hempty]
      exact hQ
    · rename_i hempty
      rw [if_neg hempty]
      exact hQ

private theorem ensures_field {Q : FieldValue → List BlockId → Prop} {value : FieldValue}
    (hv : b.field? name = some value) (h : Q value ids) : (field b name).Ensures s A Q ids := by
  unfold field
  rw [hv]
  exact h

theorem ensures_text {Q : String → List BlockId → Prop} {text : String}
    (hv : b.field? name = some (.text text)) (h : Q text ids) :
    (Recipe.text b name).Ensures s A Q ids := ensures_bind (ensures_field hv h)

theorem ensures_number {Q : Binary64 → List BlockId → Prop} {n : Binary64}
    (hv : b.field? name = some (.number n)) (h : Q n ids) :
    (number b name).Ensures s A Q ids := ensures_bind (ensures_field hv h)

theorem ensures_choice {Q : String → List BlockId → Prop} {known : List String} {chosen : String}
    (hv : b.field? name = some (.choice chosen)) (hk : chosen ∈ known) (h : Q chosen ids) :
    (choice b name known).Ensures s A Q ids := by
  refine ensures_bind (ensures_field hv ?_)
  dsimp only [FieldValue.string?]
  rw [if_pos hk]
  exact h

theorem ensures_variableOf {Q : String → List BlockId → Prop} {user : String}
    (hv : b.field? name = some (.text user)) (h : ∀ n, A.identifier user n → Q n ids) :
    (variableOf b name).Ensures s A Q ids := ensures_bind (ensures_text hv h)

theorem ensures_itemCount {Q : Nat → List BlockId → Prop} {n : Nat} (hm : b.mutation = .items n)
    (h : Q n ids) : (itemCount b).Ensures s A Q ids := by
  unfold itemCount
  rw [hm]
  exact h

theorem ensures_branchCounts {Q : Nat × Bool → List BlockId → Prop} {n : Nat} {hasElse : Bool}
    (hm : b.mutation = .branches n hasElse) (h : Q (n, hasElse) ids) :
    (branchCounts b).Ensures s A Q ids := by
  unfold branchCounts
  rw [hm]
  exact h

theorem ensures_variant {Q : String → List BlockId → Prop} (hm : b.mutation = .variant name)
    (h : Q name ids) : (variant b).Ensures s A Q ids := by
  unfold variant
  rw [hm]
  exact h

end parts

end Recipe

end BlockProgram.Python
