import BlockProgram.Proofs.Python.Calls

/-! Runs of rules that call each other like a tree. If every rule does what is expected of it as long as
the blocks that it asks for do, then so does a run, unless it is nested too deeply; and the rule of every
block that is called runs once. A block is noted as visited when its rule is about to run. -/
namespace BlockProgram.Python

open Workspace Recipe

variable {next : BlockId → List BlockId} {levels : Nat} {heads heads' : List BlockId}
  {p p' p'' : Progress} {id c x : BlockId} {n : Nat}

/-- The blocks within `id` that are less than `levels` calls away: each one comes before those that it calls,
and these come in the order of the calls. -/
def preorder (next : BlockId → List BlockId) : Nat → BlockId → List BlockId
  | 0, _ => []
  | levels + 1, id => id :: (next id).flatMap (preorder next levels)

/-- The rules of exactly the blocks within `heads` have run on the way from `p` to `p'`, each of them
once and before those that it calls, the faults of the faulty ones have been noted, and all are less than `levels` calls away. -/
structure Ran (fault : BlockId → Option BlockFault) (next : BlockId → List BlockId) (levels : Nat)
    (heads : List BlockId) (p p' : Progress) : Prop where
  visited : ∃ new, p'.visited = new ++ p.visited ∧ new.Nodup ∧
    ∀ x, x ∈ new ↔ ∃ c ∈ heads, ∃ n, Within next c x n
  ordered : p'.visited = (heads.flatMap (preorder next levels)).reverse ++ p.visited
  noted : ∃ found, p'.faults = p.faults ++ found ∧
    ∀ new, p'.visited = new ++ p.visited → found.Perm (new.filterMap fault)
  shallow : ∀ c ∈ heads, ∀ x n, Within next c x n → n < levels

/-- A run has failed because a block within `heads` is at least `levels` calls away. -/
structure TooDeep (next : BlockId → List BlockId) (levels : Nat) (heads : List BlockId)
    (e : GenerationError) : Prop where
  error : ∃ x, e = .tooDeep x
  deep : ∃ c ∈ heads, ∃ x n, Within next c x n ∧ levels ≤ n

namespace Ran

variable {fault : BlockId → Option BlockFault}

theorem nil (p : Progress) : Ran fault next levels [] p p := by
  refine ⟨⟨[], rfl, List.nodup_nil, by simp⟩, rfl,
    ⟨[], (List.append_nil _).symm, fun new hnew => ?_⟩, by simp⟩
  obtain rfl : new = [] := by simpa using hnew
  exact .nil

theorem append (h : Ran fault next levels heads p p') (h' : Ran fault next levels heads' p' p'')
    (hfresh : ∀ c ∈ heads', ∀ x n, Within next c x n → x ∉ p'.visited) :
    Ran fault next levels (heads ++ heads') p p'' := by
  obtain ⟨new, hvisited, hnodup, hnew⟩ := h.visited
  obtain ⟨new', hvisited', hnodup', hnew'⟩ := h'.visited
  obtain ⟨found, hfound, hperm⟩ := h.noted
  obtain ⟨found', hfound', hperm'⟩ := h'.noted
  have hall : p''.visited = (new' ++ new) ++ p.visited := by
    rw [hvisited', hvisited, List.append_assoc]
  refine ⟨⟨new' ++ new, hall, ?_, fun x => ?_⟩, ?_, ⟨found ++ found', ?_, fun l hl => ?_⟩,
    fun c hc => ?_⟩
  · refine List.nodup_append.mpr ⟨hnodup', hnodup, ?_⟩
    rintro x hx' _ hx rfl
    obtain ⟨c, hc, n, hn⟩ := (hnew' x).mp hx'
    exact hfresh c hc x n hn (hvisited ▸ List.mem_append_left _ hx)
  · simp only [List.mem_append, hnew, hnew', or_and_right, exists_or]
    exact or_comm
  · rw [h'.ordered, h.ordered, List.flatMap_append, List.reverse_append, List.append_assoc]
  · rw [hfound', hfound, List.append_assoc]
  · obtain rfl := List.append_cancel_right (hall.symm.trans hl)
    rw [List.filterMap_append]
    exact List.perm_append_comm.trans ((hperm' new' hvisited').append (hperm new hvisited))
  · rcases List.mem_append.mp hc with hc | hc
    · exact h.shallow c hc
    · exact h'.shallow c hc

/-- A block whose calls have run has run itself, as soon as its fault, if it is faulty, has been noted. -/
theorem call (h : Ran fault next levels (next id) { p with visited := id :: p.visited } p')
    (ht : Tree next) :
    Ran fault next (levels + 1) [id] p { p' with faults := p'.faults ++ (fault id).toList } := by
  obtain ⟨new, hvisited, hnodup, hnew⟩ := h.visited
  obtain ⟨found, hfound, hperm⟩ := h.noted
  have hid : id ∉ new := by
    intro hm
    obtain ⟨c, hc, n, hn⟩ := (hnew id).mp hm
    exact ht.acyclic hc hn
  have hall : p'.visited = (new ++ [id]) ++ p.visited := by
    rw [hvisited, List.append_assoc]
    rfl
  refine ⟨⟨new ++ [id], hall, ?_, fun x => ?_⟩, ?_, ⟨found ++ (fault id).toList, ?_, fun l hl => ?_⟩,
    fun c hc x n hn => ?_⟩
  · refine List.nodup_append.mpr ⟨hnodup, List.nodup_singleton id, fun x hx y hy => ?_⟩
    rw [List.mem_singleton.mp hy]
    rintro rfl
    exact hid hx
  · rw [List.mem_append, hnew, List.mem_singleton]
    constructor
    · rintro (⟨c, hc, n, hn⟩ | rfl)
      · exact ⟨id, by simp, n + 1, hn.cons hc⟩
      · exact ⟨x, by simp, 0, .self⟩
    · rintro ⟨c, hc, n, hn⟩
      obtain rfl := List.mem_singleton.mp hc
      rcases hn.cases_cons with ⟨rfl, -⟩ | ⟨d, hd, k, -, hk⟩
      · exact .inr rfl
      · exact .inl ⟨d, hd, k, hk⟩
  · rw [List.flatMap_singleton, preorder, List.reverse_cons, List.append_assoc]
    exact h.ordered
  · rw [hfound, List.append_assoc]
  · obtain rfl := List.append_cancel_right (hall.symm.trans hl)
    have hlast : [id].filterMap fault = (fault id).toList := by
      cases hf : fault id <;> simp [hf]
    rw [List.filterMap_append, hlast]
    exact (hperm new hvisited).append_right _
  · obtain rfl := List.mem_singleton.mp hc
    rcases hn.cases_cons with ⟨-, rfl⟩ | ⟨d, hd, k, rfl, hk⟩
    · omega
    · have := h.shallow d hd x k hk
      omega

/-- Where no block is faulty, no fault is noted. -/
theorem faults (h : Ran (fun _ => none) next levels heads p p') : p'.faults = p.faults := by
  obtain ⟨new, hvisited, -⟩ := h.visited
  obtain ⟨found, hfound, hperm⟩ := h.noted
  have hnone : found = [] := by simpa using hperm new hvisited
  rw [hfound, hnone, List.append_nil]

end Ran

/-- A call that is too deep beneath a block is too deep from the block, one level up. -/
theorem TooDeep.call {e : GenerationError} (h : TooDeep next levels (next id) e) :
    TooDeep next (levels + 1) [id] e := by
  obtain ⟨c, hc, x, n, hn, hle⟩ := h.deep
  exact ⟨h.error, id, by simp, x, n + 1, hn.cons hc, by omega⟩

/-- What is expected of the blocks of a run, which of them are faulty, and what is expected of the names
that are handed out. -/
structure Expectation where
  answers : Answers
  names : Names → Prop
  fault : BlockId → Option BlockFault := fun _ => none

/-- The recipe asks for the blocks `ids` and gives up after that with a fault. -/
def GivesUp (s : Setting) (A : Answers) (fault : BlockFault) (r : Recipe Fragment)
    (ids : List BlockId) : Prop :=
  ∃ (α : Type) (q : Recipe α) (f : α → Recipe Fragment), r = q >>= f ∧
    q.Ensures s A (fun a rest => rest = [] ∧ f a = .fail (.fault fault)) ids

/-- The recipe of a block asks for the blocks `ids` and ends with an answer of the block, or gives up with
its fault if it is faulty. -/
def Expectation.Kept (X : Expectation) (s : Setting) (b : Block) (id : BlockId) (r : Recipe Fragment)
    (ids : List BlockId) : Prop :=
  match X.fault id with
  | none => r.Ensures s X.answers (fun f rest => rest = [] ∧ X.answers.fragment id f) ids
  | some fault => GivesUp s X.answers fault r ids ∧ X.answers.fragment id (placeholder b)

/-- The rules do what is expected of them on the blocks of `known`, where `next` are the blocks that the
rule of a block asks for. -/
structure Served (rules : RuleRegistry) (s : Setting) (X : Expectation)
    (next : BlockId → List BlockId) (known : BlockId → Prop) : Prop where
  tree : Tree next
  closed : ∀ {p c}, known p → c ∈ next p → known c
  serves : ∀ id, known id → ∃ b rule, s.workspace.find? id = some b ∧
    rules.get? b.type = some rule ∧ X.Kept s b id (rule b) (next id)
  variableName : ∀ user names, X.names names →
    X.answers.identifier user (names.variableName user).1 ∧ X.names (names.variableName user).2
  distinct : ∀ base names, X.names names →
    X.answers.fresh (names.distinct base).1 ∧ X.names (names.distinct base).2

/-- Nothing within the blocks has been visited, they are known, and nothing is within two of them. -/
structure Pending (next : BlockId → List BlockId) (known : BlockId → Prop) (heads : List BlockId)
    (p : Progress) : Prop where
  known : ∀ c ∈ heads, known c
  nodup : heads.Nodup
  apart : ∀ {c d x n m}, c ∈ heads → d ∈ heads → Within next c x n → Within next d x m → c = d
  fresh : ∀ {c x n}, c ∈ heads → Within next c x n → x ∉ p.visited

variable {rules : RuleRegistry} {s : Setting} {X : Expectation} {known : BlockId → Prop}

theorem Pending.singleton (hid : known id) (hfresh : ∀ x n, Within next id x n → x ∉ p.visited) :
    Pending next known [id] p := by
  refine ⟨by simpa using hid, List.nodup_singleton id, fun hc hd _ _ => ?_, fun {c x n} hc hn => ?_⟩
  · exact (List.mem_singleton.mp hc).trans (List.mem_singleton.mp hd).symm
  · exact hfresh x n (List.mem_singleton.mp hc ▸ hn)

/-- What a block calls is pending as soon as the block itself has been noted. -/
theorem Pending.calls (hp : Pending next known [id] p) (h : Served rules s X next known) :
    Pending next known (next id) { p with visited := id :: p.visited } := by
  refine ⟨fun c hc => h.closed (hp.known id (by simp)) hc, h.tree.nodup id,
    fun hc hd hx hx' => hx.siblings_eq h.tree hc hd hx', fun {c x n} hc hn hx => ?_⟩
  rcases List.mem_cons.mp hx with rfl | hx
  · exact h.tree.acyclic hc hn
  · exact hp.fresh (List.mem_singleton_self id) (hn.cons hc) hx

/-- What becomes of the blocks `heads` with the given number of levels left. -/
def Outcome (X : Expectation) (next : BlockId → List BlockId) (levels : Nat) (heads : List BlockId)
    (p : Progress) {α : Type} (Q : α → Prop) : Except GenerationError α × Progress → Prop
  | (.ok a, p') => Q a ∧ X.names p'.names ∧ Ran X.fault next levels heads p p'
  | (.error e, _) => TooDeep next levels heads e

/-- Of the blocks `heads`, those before `rest` have run. -/
private def Underway (X : Expectation) (next : BlockId → List BlockId) (levels : Nat)
    (heads : List BlockId) (p : Progress) (rest : List BlockId) (p' : Progress) : Prop :=
  ∃ before, heads = before ++ rest ∧ X.names p'.names ∧ Ran X.fault next levels before p p'

namespace Underway

variable {rest : List BlockId}

private theorem names (h : Underway X next levels heads p rest p') : X.names p'.names := by
  obtain ⟨_, -, hnames, -⟩ := h
  exact hnames

private theorem renamed (h : Underway X next levels heads p rest p') {names : Names}
    (hn : X.names names) : Underway X next levels heads p rest { p' with names } := by
  obtain ⟨before, hbefore, -, hran⟩ := h
  exact ⟨before, hbefore, hn, hran.visited, hran.ordered, hran.noted, hran.shallow⟩

private theorem define (h : Underway X next levels heads p rest p') (key code : String) :
    Underway X next levels heads p rest (p'.define key code) := by
  obtain ⟨before, hbefore, hnames, hran⟩ := h
  refine ⟨before, hbefore, ?_⟩
  unfold Progress.define
  split
  · exact ⟨hnames, hran⟩
  · exact ⟨hnames, hran.visited, hran.ordered, hran.noted, hran.shallow⟩

private theorem visit {visit : BlockId → Run Fragment} (hp : Pending next known heads p)
    (hvisit : ∀ id p, Pending next known [id] p → X.names p.names →
      Outcome X next levels [id] p (X.answers.fragment id) (visit id p))
    (h : Underway X next levels heads p (c :: rest) p') :
    Recipe.Ended (fun f p'' => X.answers.fragment c f ∧ Underway X next levels heads p rest p'')
      (fun e _ => TooDeep next levels heads e) (visit c p') := by
  obtain ⟨before, rfl, hnames, hran⟩ := h
  obtain ⟨new, hvisited, -, hnew⟩ := hran.visited
  have hc : c ∈ before ++ c :: rest := by simp
  -- nothing is within `c` and within a block that has run before it
  have hfresh (x : BlockId) (n : Nat) (hn : Within next c x n) : x ∉ p'.visited := by
    rw [hvisited, List.mem_append, not_or]
    refine ⟨fun hx => ?_, hp.fresh hc hn⟩
    obtain ⟨d, hd, m, hm⟩ := (hnew x).mp hx
    obtain rfl := hp.apart (List.mem_append_left _ hd) hc hm hn
    exact (List.nodup_append.mp hp.nodup).2.2 d hd d (by simp) rfl
  have hout := hvisit c p' (.singleton (hp.known c hc) hfresh) hnames
  cases hv : visit c p' with
  | mk result p'' =>
    rw [hv] at hout
    cases result with
    | ok f =>
      obtain ⟨hf, hnames', hran'⟩ := hout
      refine ⟨hf, before ++ [c], by simp, hnames', hran.append hran' fun d hd x n hn => ?_⟩
      exact hfresh x n (List.mem_singleton.mp hd ▸ hn)
    | error e =>
      obtain ⟨d, hd, hdeep⟩ := TooDeep.deep hout
      exact ⟨TooDeep.error hout, d, List.mem_singleton.mp hd ▸ hc, hdeep⟩

end Underway

/-- A recipe that asks for blocks which each come out well comes out well itself. -/
theorem outcome_run {α : Type} {Q : α → Prop} {r : Recipe α} {heads : List BlockId} {p : Progress}
    {visit : BlockId → Run Fragment} (h : Served rules s X next known)
    (hr : r.Ensures s X.answers (fun a rest => rest = [] ∧ Q a) heads)
    (hp : Pending next known heads p) (hn : X.names p.names)
    (hvisit : ∀ id p, Pending next known [id] p → X.names p.names →
      Outcome X next levels [id] p (X.answers.fragment id) (visit id p)) :
    Outcome X next levels heads p Q (r.run visit s p) := by
  have hvariable (user : String) (ids : List BlockId) (p' : Progress)
      (hu : Underway X next levels heads p ids p') :
      X.answers.identifier user (p'.names.variableName user).1 ∧
        Underway X next levels heads p ids { p' with names := (p'.names.variableName user).2 } := by
    obtain ⟨hidentifier, hnames⟩ := h.variableName user p'.names hu.names
    exact ⟨hidentifier, hu.renamed hnames⟩
  have hdistinct (base : String) (ids : List BlockId) (p' : Progress)
      (hu : Underway X next levels heads p ids p') :
      X.answers.fresh (p'.names.distinct base).1 ∧
        Underway X next levels heads p ids { p' with names := (p'.names.distinct base).2 } := by
    obtain ⟨hfresh, hnames⟩ := h.distinct base p'.names hu.names
    exact ⟨hfresh, hu.renamed hnames⟩
  have hrun := hr.run (fun _ _ _ => Underway.visit hp hvisit) hvariable hdistinct
    (fun key code _ _ hu => hu.define key code) ⟨[], rfl, hn, .nil p⟩
  cases hv : r.run visit s p with
  | mk result p' =>
    rw [hv] at hrun
    cases result with
    | ok a =>
      obtain ⟨_, ⟨rfl, hQ⟩, before, hbefore, hnames, hran⟩ := hrun
      rw [List.append_nil] at hbefore
      exact ⟨hQ, hnames, hbefore ▸ hran⟩
    | error e => exact hrun

private theorem run_bind {α : Type} {s : Setting} {visit : BlockId → Run Fragment} (q : Recipe α)
    (f : α → Recipe Fragment) (p : Progress) : (q >>= f).run visit s p =
      match q.run visit s p with
      | (.ok a, p') => (f a).run visit s p'
      | (.error e, p') => (.error e, p') := by
  change (q.bind f).run visit s p = _
  induction q generalizing p with
  | done a => rfl
  | fail e => rfl
  | look k ih => exact ih s p
  | visit id k ih => exact ih _ _
  | variableName user k ih => exact ih _ _
  | distinctName base k ih => exact ih _ _
  | define key code k ih => exact ih _

/-- A block whose rule ends with an answer comes out well as soon as the blocks that it asks for do. -/
theorem outcome_answered {r : Recipe Fragment} {visit : BlockId → Run Fragment} (b : Block)
    (ht : Tree next) (hfault : X.fault id = none)
    (hout : Outcome X next levels (next id) { p with visited := id :: p.visited }
      (X.answers.fragment id) (r.run visit s { p with visited := id :: p.visited })) :
    Outcome X next (levels + 1) [id] p (X.answers.fragment id)
      (let (result, p') := r.run visit s { p with visited := id :: p.visited }
       recordFault b result p') := by
  cases hv : r.run visit s { p with visited := id :: p.visited } with
  | mk result p' =>
    rw [hv] at hout
    cases result with
    | ok f =>
      obtain ⟨hf, hnames, hran⟩ := hout
      have hcall := hran.call ht
      rw [hfault, Option.toList_none, List.append_nil] at hcall
      exact ⟨hf, hnames, hcall⟩
    | error e =>
      obtain ⟨x, rfl⟩ := TooDeep.error hout
      exact TooDeep.call hout

/-- A faulty block leaves its placeholder, and its fault is noted behind those within it. -/
theorem outcome_givenUp {α : Type} {q : Recipe α} {f : α → Recipe Fragment}
    {visit : BlockId → Run Fragment} {b : Block} {fault : BlockFault} (ht : Tree next)
    (hfault : X.fault id = some fault) (hplaceholder : X.answers.fragment id (placeholder b))
    (hout : Outcome X next levels (next id) { p with visited := id :: p.visited }
      (fun a => f a = .fail (.fault fault)) (q.run visit s { p with visited := id :: p.visited })) :
    Outcome X next (levels + 1) [id] p (X.answers.fragment id)
      (let (result, p') := (q >>= f).run visit s { p with visited := id :: p.visited }
       recordFault b result p') := by
  rw [run_bind]
  cases hv : q.run visit s { p with visited := id :: p.visited } with
  | mk result p' =>
    rw [hv] at hout
    cases result with
    | ok a =>
      obtain ⟨hf, hnames, hran⟩ := hout
      have hcall := hran.call ht
      rw [hfault, Option.toList_some] at hcall
      dsimp only
      rw [hf]
      exact ⟨hplaceholder, hnames, hcall⟩
    | error e =>
      obtain ⟨x, rfl⟩ := TooDeep.error hout
      exact TooDeep.call hout

/-- Running the rule of a block comes out well: either everything within it has run, or it is nested too
deeply. -/
theorem outcome_blockCode (h : Served rules s X next known) {levels : Nat} {id : BlockId}
    {p : Progress} (hp : Pending next known [id] p) (hn : X.names p.names) :
    Outcome X next levels [id] p (X.answers.fragment id) (blockCode rules s levels id p) := by
  obtain ⟨b, rule, hb, hrule, hkept⟩ := h.serves id (hp.known id (by simp))
  have hfresh : id ∉ p.visited := hp.fresh (List.mem_singleton_self id) .self
  induction levels generalizing id p b rule with
  | zero =>
    unfold blockCode
    simp only [hb, hfresh, if_false]
    exact ⟨⟨id, rfl⟩, id, by simp, id, 0, .self, by omega⟩
  | succ levels ih =>
    -- the blocks that the rule asks for are one level deeper
    have hvisit (c : BlockId) (p : Progress) (hp : Pending next known [c] p) (hn : X.names p.names) :
        Outcome X next levels [c] p (X.answers.fragment c) (blockCode rules s levels c p) := by
      obtain ⟨b, rule, hb, hrule, hkept⟩ := h.serves c (hp.known c (by simp))
      exact ih hp hn b rule hb hrule hkept (hp.fresh (List.mem_singleton_self c) .self)
    unfold Expectation.Kept at hkept
    unfold blockCode
    simp only [hb, hfresh, if_false, hrule]
    cases hfault : X.fault id with
    | none =>
      rw [hfault] at hkept
      exact outcome_answered b h.tree hfault (outcome_run h hkept (hp.calls h) hn hvisit)
    | some fault =>
      rw [hfault] at hkept
      obtain ⟨⟨α, q, f, hq, hgives⟩, hplaceholder⟩ := hkept
      rw [hq]
      exact outcome_givenUp h.tree hfault hplaceholder
        (outcome_run h hgives (hp.calls h) hn hvisit)

end BlockProgram.Python
