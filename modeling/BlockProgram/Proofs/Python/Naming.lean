import BlockProgram.Proofs.Python.Calm
import BlockProgram.Proofs.Python.Generate
import BlockProgram.Proofs.Python.Names

/-! The names that a run hands out, to which block and for what. A variable of the user has one identifier
in all blocks, whatever is generated between them, and no other name is ever the same. -/
namespace BlockProgram.Python

open Syntax Workspace

/-- What a name is handed out for. -/
inductive Request where
  | user (name : String)
  /-- A loop counter or a function, named after a base. -/
  | fresh (base : String)
  deriving DecidableEq, Repr

def Request.isFresh : Request → Bool
  | .user _ => false
  | .fresh _ => true

/-- A name that is handed out while the rule of a block runs, or between the rules of blocks. -/
structure Naming where
  block : Option BlockId
  request : Request
  name : String
  deriving DecidableEq, Repr

/-- The names handed out while a recipe is carried out, in their order. `inner` lists those that the rules
of other blocks get. -/
def Recipe.log {α : Type} (visit : BlockId → Run Fragment) (inner : BlockId → Progress → List Naming)
    (setting : Setting) (owner : Option BlockId) : Recipe α → Progress → List Naming
  | .done _, _ => []
  | .fail _, _ => []
  | .look k, p => (k setting).log visit inner setting owner p
  | .visit id k, p =>
    let (result, p') := visit id p
    inner id p ++ (k result).log visit inner setting owner p'
  | .variableName user k, p =>
    let (name, names) := p.names.variableName user
    ⟨owner, .user user, name⟩ :: (k name).log visit inner setting owner { p with names }
  | .distinctName base k, p =>
    let (name, names) := p.names.distinct base
    ⟨owner, .fresh base, name⟩ :: (k name).log visit inner setting owner { p with names }
  | .define key code k, p => k.log visit inner setting owner (p.define key code)

/-- The names handed out while a block is turned into text. -/
def blockLog (rules : RuleRegistry) (setting : Setting) : Nat → BlockId → Progress → List Naming
  | 0, _, _ => []
  | levels + 1, id, p =>
    match setting.workspace.find? id with
    | none => []
    | some b =>
      if id ∈ p.visited then []
      else
        match rules.get? b.type with
        | none => []
        | some rule => (rule b).log (blockCode rules setting levels) (blockLog rules setting levels)
            setting (some id) { p with visited := id :: p.visited }

/-- The names handed out while the program of a workspace is generated, be it to the end or not. -/
def Generator.namings (g : Generator) (w : Workspace) : List Naming :=
  let setting : Setting := ⟨w, String.ofList (List.replicate g.indent ' ')⟩
  (chains (roots w)).log (blockCode g.rules setting maxDepth) (blockLog g.rules setting maxDepth)
    setting none { names := userNames w }

/-- Names are handed out one after the other, and the tables change on the way. -/
inductive Handed : Names → List Naming → Names → Prop where
  | nil {names : Names} : Handed names [] names
  | user {names names' : Names} {log : List Naming} (block : Option BlockId) (user : String)
      (h : Handed (names.variableName user).2 log names') :
      Handed names (⟨block, .user user, (names.variableName user).1⟩ :: log) names'
  | fresh {names names' : Names} {log : List Naming} (block : Option BlockId) (base : String)
      (h : Handed (names.distinct base).2 log names') :
      Handed names (⟨block, .fresh base, (names.distinct base).1⟩ :: log) names'

variable {α β : Type} {rules : RuleRegistry} {setting : Setting} {w : Workspace}
  {names names' names'' : Names} {l l' : List Naming} {visit : BlockId → Run Fragment}
  {inner : BlockId → Progress → List Naming} {owner : Option BlockId} {b : Block}
  {P : String → Prop}

theorem Handed.append (h : Handed names l names') (h' : Handed names' l' names'') :
    Handed names (l ++ l') names'' := by
  induction h with
  | nil => exact h'
  | user block user _ ih => exact .user block user (ih h')
  | fresh block base _ ih => exact .fresh block base (ih h')

namespace Recipe

/-- The recipe asks for the identifiers of certain variables only, whatever it is answered. -/
def Asks (P : String → Prop) : Recipe α → Prop
  | .done _ => True
  | .fail _ => True
  | .look k => ∀ s, (k s).Asks P
  | .visit _ k => ∀ result, (k result).Asks P
  | .variableName user k => P user ∧ ∀ name, (k name).Asks P
  | .distinctName _ k => ∀ name, (k name).Asks P
  | .define _ _ k => k.Asks P

/-- Every variable in the log is one that the recipe or another block asks for. -/
theorem Asks.log {r : Recipe α} {Q : Naming → Prop} (h : r.Asks P)
    (hinner : ∀ id p, ∀ e ∈ inner id p, Q e) (hfresh : ∀ base name, Q ⟨owner, .fresh base, name⟩)
    (hvariable : ∀ user name, P user → Q ⟨owner, .user user, name⟩) (p : Progress) :
    ∀ e ∈ r.log visit inner setting owner p, Q e := by
  induction r generalizing p with
  | done a => exact List.forall_mem_nil _
  | fail e => exact List.forall_mem_nil _
  | look k ih => exact ih setting (h setting) p
  | visit id k ih =>
    intro e he
    rcases List.mem_append.mp he with he | he
    · exact hinner id p e he
    · exact ih _ (h _) _ e he
  | variableName user k ih =>
    exact List.forall_mem_cons.mpr ⟨hvariable user _ h.1, ih _ (h.2 _) _⟩
  | distinctName base k ih => exact List.forall_mem_cons.mpr ⟨hfresh base _, ih _ (h _) _⟩
  | define key code k ih => exact ih h (p.define key code)

end Recipe

/-- What can be said of the names handed out from certain tables on. -/
private structure Apart (w : Workspace) (names : Names) (l : List Naming) : Prop where
  usable : ∀ e ∈ l, Usable e.name
  known : ∀ e ∈ l, ∀ user, e.request = .user user → e.name = identifierIn w user
  nodup : ((l.filter (·.request.isFresh)).map (·.name)).Nodup
  new : ∀ e ∈ l, e.request.isFresh → e.name ∉ names.taken

private theorem Handed.apart (h : Handed names l names') (hc : Continues w names) (hs : names.Sane)
    (hl : ∀ e ∈ l, ∀ user, e.request = .user user → user ∈ variablesIn w) : Apart w names l := by
  induction h with
  | nil => exact ⟨by simp, by simp, by simp, by simp⟩
  | user block user h ih =>
    -- the variables in the workspace have their names from the start
    have hu : user ∈ variablesIn w := hl _ List.mem_cons_self user rfl
    rw [hc.variableName_eq hu] at h ih ⊢
    have hrest := ih hc hs fun e he => hl e (List.mem_cons_of_mem _ he)
    refine ⟨List.forall_mem_cons.mpr ⟨usable_identifierIn hu, hrest.usable⟩,
      List.forall_mem_cons.mpr ⟨fun user' he => ?_, hrest.known⟩, hrest.nodup,
      List.forall_mem_cons.mpr ⟨nofun, hrest.new⟩⟩
    cases he
    rfl
  | @fresh names _ l block base h ih =>
    have hrest := ih hc hs.distinct fun e he => hl e (List.mem_cons_of_mem _ he)
    have hnew (e : Naming) (he : e ∈ l) (hf : e.request.isFresh) :
        e.name ∉ names.taken ∧ e.name ≠ (names.distinct base).1 := by
      have hno := hrest.new e he hf
      exact ⟨fun hm => hno (List.mem_append_left _ hm),
        fun heq => hno (heq ▸ List.mem_append_right _ (List.mem_singleton_self _))⟩
    refine ⟨List.forall_mem_cons.mpr ⟨usable_distinct hs.taken, hrest.usable⟩,
      List.forall_mem_cons.mpr ⟨nofun, hrest.known⟩, ?_,
      List.forall_mem_cons.mpr ⟨fun _ => names.distinct_not_mem base, fun e he hf => (hnew e he hf).1⟩⟩
    refine List.nodup_cons.mpr ⟨fun hm => ?_, hrest.nodup⟩
    obtain ⟨e, he, heq⟩ := List.mem_map.mp hm
    obtain ⟨he, hf⟩ := List.mem_filter.mp he
    exact (hnew e he hf).2 heq

end BlockProgram.Python
