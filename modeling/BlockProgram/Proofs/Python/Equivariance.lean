import BlockProgram.Proofs.Python.Generate
import BlockProgram.Proofs.Workspace.Desk
import BlockProgram.Proofs.Workspace.Equivariance

/-! The program of a workspace does not depend on the ids of its blocks. A recipe asks for blocks that the
workspace names to it, in the order of the sockets and the chains, and gets text that names none. -/
namespace BlockProgram.Python

variable {r : Equiv.Perm BlockId}

def BlockFault.rename (r : Equiv.Perm BlockId) : BlockFault → BlockFault
  | .missingField b type field => .missingField (r b) type field
  | .invalidField b type field value => .invalidField (r b) type field value
  | .unexpectedMutation b type token => .unexpectedMutation (r b) type token

def GenerationError.rename (r : Equiv.Perm BlockId) : GenerationError → GenerationError
  | .missingRules types => .missingRules types
  | .unknownBlock id => .unknownBlock (r id)
  | .fault f => .fault (f.rename r)
  | .expectedExpression b type => .expectedExpression (r b) type
  | .expectedStatement b type => .expectedStatement (r b) type
  | .invalidBlocks faults => .invalidBlocks (faults.map (·.rename r))
  | .revisited id => .revisited (r id)
  | .tooDeep id => .tooDeep (r id)

@[simps]
def Setting.rename (r : Equiv.Perm BlockId) (s : Setting) : Setting :=
  { s with workspace := s.workspace.rename r }

@[simps]
def Progress.rename (r : Equiv.Perm BlockId) (p : Progress) : Progress :=
  { p with visited := p.visited.map r, faults := p.faults.map (·.rename r) }

/-- An answer, with other ids in the reason if there is none. -/
def renameAnswer {α : Type} (r : Equiv.Perm BlockId) (answer : Except GenerationError α) :
    Except GenerationError α := answer.mapError (·.rename r)

/-- The second recipe does with other ids what the first one does. -/
inductive Recipe.Alike (r : Equiv.Perm BlockId) {α : Type} : Recipe α → Recipe α → Prop where
  | done (a : α) : Alike r (.done a) (.done a)
  | fail (e : GenerationError) : Alike r (.fail e) (.fail (e.rename r))
  | look {k k' : Setting → Recipe α} (h : ∀ s, Alike r (k s) (k' (s.rename r))) :
      Alike r (.look k) (.look k')
  | visit (id : BlockId) {k k' : Except GenerationError Fragment → Recipe α}
      (h : ∀ answer, Alike r (k answer) (k' (renameAnswer r answer))) :
      Alike r (.visit id k) (.visit (r id) k')
  | variableName (user : String) {k k' : String → Recipe α} (h : ∀ n, Alike r (k n) (k' n)) :
      Alike r (.variableName user k) (.variableName user k')
  | distinctName (base : String) {k k' : String → Recipe α} (h : ∀ n, Alike r (k n) (k' n)) :
      Alike r (.distinctName base k) (.distinctName base k')
  | define (key code : String) {k k' : Recipe α} (h : Alike r k k') :
      Alike r (.define key code k) (.define key code k')

namespace Recipe

variable {α β : Type} {b : Block} {socket name : String} {bound : Precedence}

namespace Alike

theorem bind {c c' : Recipe α} {f f' : α → Recipe β} (h : Alike r c c')
    (hf : ∀ a, Alike r (f a) (f' a)) : Alike r (c >>= f) (c' >>= f') := by
  change Alike r (c.bind f) (c'.bind f')
  induction h with
  | done a => exact hf a
  | fail e => exact .fail e
  | look _ ih => exact .look ih
  | visit id _ ih => exact .visit id ih
  | variableName user _ ih => exact .variableName user ih
  | distinctName base _ ih => exact .distinctName base ih
  | define key code _ ih => exact .define key code ih

/-- Runs of recipes that do the same go on side by side. -/
theorem run {c c' : Recipe α} (h : Alike r c c') {visit visit' : BlockId → Run Fragment}
    (hvisit : ∀ id p, visit' (r id) (p.rename r) =
      (renameAnswer r (visit id p).1, (visit id p).2.rename r)) (s : Setting) (p : Progress) :
    c'.run visit' (s.rename r) (p.rename r) =
      (renameAnswer r (c.run visit s p).1, (c.run visit s p).2.rename r) := by
  induction h generalizing p with
  | done a => rfl
  | fail e => rfl
  | look _ ih => exact ih s p
  | visit id _ ih =>
    simp only [Recipe.run, hvisit]
    exact ih _ _
  | variableName user _ ih => exact ih _ { p with names := (p.names.variableName user).2 }
  | distinctName base _ ih => exact ih _ { p with names := (p.names.distinct base).2 }
  | define key code _ ih =>
    have hdefine : (p.rename r).define key code = (p.define key code).rename r := by
      unfold Progress.define
      simp only [Progress.rename_definitions]
      split <;> rfl
    simp only [Recipe.run, hdefine]
    exact ih _

end Alike

private theorem alike_block (id : BlockId) : Alike r (block id) (block (r id)) :=
  .visit id fun answer => by
    cases answer with
    | ok f => exact .done f
    | error e => exact .fail e

private theorem alike_indent : Alike r indent indent := .look fun s => .done s.indent

private theorem alike_workspace {f f' : Workspace → Recipe α} (h : ∀ w, Alike r (f w) (f' (w.rename r))) :
    Alike r (workspace >>= f) (workspace >>= f') := .look fun s => h s.workspace

private theorem typeOf_rename (w : Workspace) (id : BlockId) : typeOf (w.rename r) (r id) = typeOf w id := by
  unfold typeOf
  rw [Workspace.find?_rename]
  cases w.find? id <;> rfl

private theorem alike_value? : Alike r (value? b socket bound) (value? (b.rename r) socket bound) := by
  unfold value?
  rw [Block.target?_rename]
  cases b.target? socket with
  | none => exact .done none
  | some child =>
    refine .bind (alike_block child) fun f => ?_
    cases f with
    | expression code level => exact .done _
    | statement code =>
      refine alike_workspace fun w => ?_
      rw [typeOf_rename]
      exact .fail _

private theorem alike_valueOr {default : String} :
    Alike r (valueOr b socket bound default) (valueOr (b.rename r) socket bound default) :=
  .bind alike_value? fun _ => .done _

private theorem alike_statements (ids : List BlockId) : Alike r (statements ids) (statements (ids.map r)) := by
  induction ids with
  | nil => exact .done ""
  | cons id rest ih =>
    refine .bind (alike_block id) fun f => ?_
    cases f with
    | statement code => exact .bind ih fun _ => .done _
    | expression code level =>
      refine alike_workspace fun w => ?_
      rw [typeOf_rename]
      exact .fail _

private theorem alike_chain (head : BlockId) : Alike r (chain head) (chain (r head)) :=
  alike_workspace fun w => Workspace.chain_rename (w := w) ▸ alike_statements _

private theorem alike_body : Alike r (body b socket) (body (b.rename r) socket) := by
  refine .bind ?_ fun code => ?_
  · unfold nested
    rw [Block.target?_rename]
    cases b.target? socket with
    | none => exact .done ""
    | some head => exact .bind alike_indent fun _ => .bind (alike_chain head) fun _ => .done _
  · split
    · exact .bind alike_indent fun _ => .done _
    · exact .done code

private theorem alike_field : Alike r (field b name) (field (b.rename r) name) := by
  have hfield : (b.rename r).field? name = b.field? name := rfl
  simp only [field, hfield]
  cases b.field? name with
  | some value => exact .done value
  | none => exact .fail _

private theorem alike_invalid {value : FieldValue} :
    Alike r (invalid b name value : Recipe α) (invalid (b.rename r) name value) := .fail _

private theorem alike_text : Alike r (text b name) (text (b.rename r) name) :=
  .bind alike_field fun value => by
    cases value with
    | text s => exact .done s
    | _ => exact alike_invalid

private theorem alike_number : Alike r (number b name) (number (b.rename r) name) :=
  .bind alike_field fun value => by
    cases value with
    | number n => exact .done n
    | _ => exact alike_invalid

private theorem alike_choice {known : List String} :
    Alike r (choice b name known) (choice (b.rename r) name known) := by
  refine .bind alike_field fun value => ?_
  split
  · split
    · exact .done _
    · exact alike_invalid
  · exact alike_invalid

private theorem alike_variableOf : Alike r (variableOf b name) (variableOf (b.rename r) name) :=
  .bind alike_text fun user => .variableName user fun n => .done n

private theorem alike_newName (base : String) : Alike r (newName base) (newName base) :=
  .distinctName base fun n => .done n

private theorem alike_requireImport (line : String) : Alike r (requireImport line) (requireImport line) :=
  .define line line (.done ())

private theorem alike_unexpected : Alike r (unexpected b : Recipe α) (unexpected (b.rename r)) := .fail _

private theorem alike_itemCount : Alike r (itemCount b) (itemCount (b.rename r)) := by
  simp only [itemCount, Block.rename_mutation]
  split
  · exact .done _
  · exact alike_unexpected

private theorem alike_branchCounts : Alike r (branchCounts b) (branchCounts (b.rename r)) := by
  simp only [branchCounts, Block.rename_mutation]
  split
  · exact .done _
  · exact alike_unexpected

private theorem alike_variant : Alike r (variant b) (variant (b.rename r)) := by
  simp only [variant, Block.rename_mutation]
  split
  · exact .done _
  · exact alike_unexpected

end Recipe

open Recipe

variable {b : Block}

private theorem alike_numberedValues (name default : String) (count start : Nat) :
    Alike r (Rules.numberedValues b name default count start)
      (Rules.numberedValues (b.rename r) name default count start) := by
  induction count generalizing start with
  | zero => exact .done []
  | succ count ih => exact .bind alike_valueOr fun _ => .bind (ih _) fun _ => .done _

private theorem alike_items (name default : String) :
    Alike r (Rules.items b name default) (Rules.items (b.rename r) name default) :=
  .bind alike_itemCount fun _ => alike_numberedValues name default _ 0

private theorem alike_entries (count start : Nat) :
    Alike r (Rules.entries b count start) (Rules.entries (b.rename r) count start) := by
  induction count generalizing start with
  | zero => exact .done []
  | succ count ih =>
    exact .bind alike_valueOr fun _ => .bind alike_valueOr fun _ => .bind (ih _) fun _ => .done _

private theorem alike_conditions (count start : Nat) :
    Alike r (Rules.conditions b count start) (Rules.conditions (b.rename r) count start) := by
  induction count generalizing start with
  | zero => exact .done ""
  | succ count ih =>
    exact .bind alike_valueOr fun _ => .bind alike_body fun _ => .bind (ih _) fun _ => .done _

private theorem alike_elementIndex (place : String) :
    Alike r (Rules.elementIndex b place) (Rules.elementIndex (b.rename r) place) := by
  unfold Rules.elementIndex
  split
  · exact .done _
  · exact .done _
  · exact .bind alike_valueOr fun _ => .done _
  · exact .bind alike_valueOr fun _ => .done _

/-- The rule treats blocks the same whatever their ids are. -/
def Rule.Equivariant (r : Equiv.Perm BlockId) (rule : Rule) : Prop :=
  ∀ b, Alike r (rule b) (rule (b.rename r))

private theorem equivariant_values : ∀ entry ∈ Rules.values, Rule.Equivariant r entry.2 := by
  simp only [Rules.values, List.forall_mem_cons, Rule.Equivariant]
  refine ⟨fun b => ?_, fun b => ?_, fun b => ?_, fun b => ?_, fun b => ?_, List.forall_mem_nil _⟩
  · exact .bind alike_number fun _ => .done _
  · exact .bind alike_text fun _ => .done _
  · exact .bind alike_choice fun _ => .done _
  · exact .done _
  · exact .bind alike_variableOf fun _ => .done _

private theorem equivariant_operators : ∀ entry ∈ Rules.operators, Rule.Equivariant r entry.2 := by
  simp only [Rules.operators, List.forall_mem_cons, Rule.Equivariant]
  refine ⟨fun b => ?_, fun b => ?_, fun b => ?_, fun b => ?_, fun b => ?_, List.forall_mem_nil _⟩
  · exact .bind alike_choice fun _ => .bind alike_valueOr fun _ => .bind alike_valueOr fun _ => .done _
  · refine .bind alike_choice fun op => ?_
    split
    · exact .bind alike_valueOr fun _ => .done _
    · exact .bind alike_valueOr fun _ => .done _
    · exact .bind alike_valueOr fun _ => .done _
    · exact .bind (alike_requireImport _) fun _ => .bind alike_valueOr fun _ => .done _
  · exact .bind alike_choice fun _ => .bind alike_valueOr fun _ => .bind alike_valueOr fun _ => .done _
  · exact .bind alike_choice fun _ => .bind alike_value? fun _ => .bind alike_value? fun _ => .done _
  · exact .bind alike_valueOr fun _ => .done _

private theorem equivariant_collections :
    ∀ entry ∈ Rules.collections, Rule.Equivariant r entry.2 := by
  simp only [Rules.collections, List.forall_mem_cons, Rule.Equivariant]
  refine ⟨fun b => ?_, fun b => ?_, fun b => ?_, fun b => ?_, fun b => ?_, List.forall_mem_nil _⟩
  · exact .bind (alike_items _ _) fun _ => .done _
  · exact .bind alike_itemCount fun _ => .bind (alike_entries _ _) fun _ => .done _
  · refine .bind (alike_items _ _) fun values => ?_
    dsimp only
    split <;> exact .done _
  · refine .bind alike_variant fun mode => .bind alike_choice fun place =>
      .bind alike_valueOr fun list => .bind (alike_elementIndex place) fun index => ?_
    split
    · exact .done _
    · exact .done _
    · exact .done _
    · exact .fail _
  · refine .bind (alike_requireImport _) fun _ => .bind (alike_items _ _) fun values => ?_
    dsimp only
    split <;> exact .bind (.done _) fun _ => .done _

private theorem equivariant_assignment : ∀ entry ∈ Rules.assignment, Rule.Equivariant r entry.2 := by
  simp only [Rules.assignment, List.forall_mem_cons, Rule.Equivariant]
  refine ⟨fun b => ?_, List.forall_mem_nil _⟩
  exact .bind alike_variableOf fun _ => .bind alike_valueOr fun _ => .done _

private theorem equivariant_control : ∀ entry ∈ Rules.control, Rule.Equivariant r entry.2 := by
  simp only [Rules.control, List.forall_mem_cons, Rule.Equivariant]
  refine ⟨fun b => ?_, fun b => ?_, fun b => ?_, fun b => ?_, fun b => ?_, fun b => ?_,
    List.forall_mem_nil _⟩
  · exact .bind alike_valueOr fun _ => .done _
  · exact .bind alike_valueOr fun _ => .bind (alike_newName _) fun _ => .bind alike_body fun _ => .done _
  · refine .bind alike_choice fun mode => ?_
    dsimp only
    split
    · exact .bind alike_valueOr fun _ => .bind alike_body fun _ => .done _
    · exact .bind alike_valueOr fun _ => .bind (.done _) fun _ => .bind alike_body fun _ => .done _
  · exact .bind alike_variableOf fun _ => .bind alike_valueOr fun _ => .bind alike_body fun _ => .done _
  · refine .bind alike_branchCounts fun counts => .bind (alike_conditions _ _) fun _ => ?_
    split
    · exact .bind alike_body fun _ => .done _
    · exact .done _
  · refine .bind alike_value? fun value => ?_
    cases value <;> exact .done _

private theorem equivariant_program : ∀ entry ∈ Rules.program, Rule.Equivariant r entry.2 := by
  simp only [Rules.program, List.forall_mem_cons, Rule.Equivariant]
  refine ⟨fun b => ?_, List.forall_mem_nil _⟩
  exact .bind alike_text fun _ => .bind (alike_newName _) fun _ => .bind alike_body fun _ =>
    .bind alike_indent fun _ => .done _

/-- No standard rule looks at ids. -/
theorem equivariant_standard {type : String} {rule : Rule} (h : standard.rules.get? type = some rule) :
    rule.Equivariant r := by
  have hall : ∀ entry ∈ standardTypes, Rule.Equivariant r entry.2 := by
    simp only [standardTypes, List.forall_mem_append]
    exact ⟨⟨⟨⟨⟨equivariant_values, equivariant_operators⟩, equivariant_collections⟩,
      equivariant_assignment⟩, equivariant_control⟩, equivariant_program⟩
  obtain ⟨shape, -, hmem⟩ := exists_shape_of_rule h
  exact hall _ hmem

private theorem recordFault_rename (answer : Except GenerationError Fragment) (p : Progress) :
    recordFault (b.rename r) (renameAnswer r answer) (p.rename r) =
      (renameAnswer r (recordFault b answer p).1, (recordFault b answer p).2.rename r) := by
  cases answer with
  | ok f => rfl
  | error e =>
    cases e with
    | fault f => simp [recordFault, renameAnswer, GenerationError.rename, Except.mapError, placeholder,
        Progress.rename]
    | _ => rfl

private theorem blockCode_rename (s : Setting) (levels : Nat) (id : BlockId) (p : Progress) :
    blockCode standard.rules (s.rename r) levels (r id) (p.rename r) =
      (renameAnswer r (blockCode standard.rules s levels id p).1,
        (blockCode standard.rules s levels id p).2.rename r) := by
  induction levels generalizing id p with
  | zero =>
    unfold blockCode
    simp only [Setting.rename_workspace, Workspace.find?_rename]
    cases s.workspace.find? id with
    | none => rfl
    | some b =>
      simp only [Option.map_some, Progress.rename_visited, List.mem_map_of_injective r.injective]
      split <;> rfl
  | succ levels ih =>
    unfold blockCode
    simp only [Setting.rename_workspace, Workspace.find?_rename]
    cases s.workspace.find? id with
    | none => rfl
    | some b =>
      simp only [Option.map_some, Progress.rename_visited, List.mem_map_of_injective r.injective,
        Block.rename_type]
      split
      · rfl
      · cases hrule : standard.rules.get? b.type with
        | none => rfl
        | some rule =>
          -- the blocks that the rule asks for are one level deeper
          have hrun := (equivariant_standard (r := r) hrule b).run ih s { p with visited := id :: p.visited }
          exact (congrArg (fun o => recordFault (b.rename r) o.1 o.2) hrun).trans
            (recordFault_rename _ _)

private theorem userNames_rename (w : Workspace) : userNames (w.rename r) = userNames w := by
  simp only [userNames, Workspace.rename_blocks, List.flatMap_map]
  rfl

theorem preflight_rename (g : Generator) (w : Workspace) : g.preflight (w.rename r) = g.preflight w := by
  simp only [Generator.preflight, Workspace.rename_blocks, List.map_map]
  rfl

/-- Entry points are told by their types. -/
theorem chosen_rename {entry : Block → Bool} (hentry : ∀ b, entry (b.rename r) = entry b)
    (heads : List Block) :
    (if ((heads.map (Block.rename r)).filter entry).isEmpty then heads.map (Block.rename r)
        else (heads.map (Block.rename r)).filter entry).map (·.id) =
      ((if (heads.filter entry).isEmpty then heads else heads.filter entry).map (·.id)).map r := by
  have hfilter : (heads.map (Block.rename r)).filter entry = (heads.filter entry).map (Block.rename r) := by
    rw [List.filter_map]
    exact congrArg _ (List.filter_congr fun b _ => hentry b)
  rw [hfilter, List.isEmpty_map, ← apply_ite (List.map (Block.rename r)), List.map_map, List.map_map]
  rfl

theorem roots_rename (w : Workspace) :
    Generator.roots (w.rename r) = (Generator.roots w).map r := by
  have hheads : ((w.rename r).topBlocks.filter fun b => !b.connectors.output) =
      (w.topBlocks.filter fun b => !b.connectors.output).map (Block.rename r) := by
    rw [Workspace.topBlocks_rename, List.filter_map]
    rfl
  unfold Generator.roots
  rw [hheads]
  exact chosen_rename (fun _ => rfl) _

private theorem alike_chains (heads : List BlockId) :
    Alike r (Generator.chains heads) (Generator.chains (heads.map r)) := by
  induction heads with
  | nil => exact .done []
  | cons head rest ih => exact .bind (alike_chain head) fun _ => .bind ih fun _ => .done _

private theorem finish_rename (p : Progress) (body : String) :
    finish (p.rename r) body = renameAnswer r (finish p body) := by
  simp only [finish, Progress.rename_faults, Progress.rename_definitions]
  rcases p.faults with _ | ⟨fault, _ | ⟨other, rest⟩⟩ <;> rfl

/-- Chains give the same texts, and leave the same behind, under other ids. -/
theorem run_chains_rename (heads : List BlockId) (levels : Nat) (s : Setting) (p : Progress) :
    (Generator.chains (heads.map r)).run (blockCode standard.rules (s.rename r) levels) (s.rename r)
        (p.rename r) =
      (renameAnswer r ((Generator.chains heads).run (blockCode standard.rules s levels) s p).1,
        ((Generator.chains heads).run (blockCode standard.rules s levels) s p).2.rename r) :=
  (alike_chains heads).run (blockCode_rename s levels) s p

/-- A run under other ids gives the same texts, and the same reasons about the other ids. -/
theorem outcome_rename (indent : Nat) (w : Workspace) :
    (standard.generator indent).outcome (w.rename r) =
      (renameAnswer r ((standard.generator indent).outcome w).1,
        ((standard.generator indent).outcome w).2.rename r) := by
  simp only [Generator.outcome, Vocabulary.generator, roots_rename, userNames_rename]
  exact run_chains_rename (Generator.roots w) maxDepth ⟨w, _⟩ { names := userNames w }

/-- A program names no blocks, and a reason why there is none names the right ones. -/
theorem generate_rename (indent : Nat) (w : Workspace) :
    (standard.generator indent).generate (w.rename r) =
      renameAnswer r ((standard.generator indent).generate w) := by
  rw [Generator.generate_eq, Generator.generate_eq, preflight_rename, outcome_rename]
  -- types without rules are told by their names, so that refusal mentions no block
  have hmissing : ∀ e, (standard.generator indent).preflight w = .error e → e.rename r = e := by
    intro e he
    unfold Generator.preflight at he
    split at he
    · cases he
    · cases he
      rfl
  cases hp : (standard.generator indent).preflight w with
  | error e => exact congrArg Except.error (hmissing e hp).symm
  | ok _ =>
    rcases (standard.generator indent).outcome w with ⟨e | codes, p⟩
    · rfl
    · exact finish_rename p _

/-- The ids of blocks are immaterial. Edits build the same workspace up to the ids, and its program is the
same text. -/
theorem ids_immaterial (r : Equiv.Perm BlockId) :
    (∀ indent w, (standard.generator indent).generate (w.rename r) =
      renameAnswer r ((standard.generator indent).generate w)) ∧
    Workspace.EditsCommute r ∧ Satellite.ChangesCommute r ∧
    ∀ shapes steps, (∀ text, Desk.Step.edit (.load text) ∉ steps) →
      Desk.run shapes (steps.map (·.rename r)) = (Desk.run shapes steps).rename r ∧
      ∀ indent, (standard.generator indent).generate
          (Desk.run shapes (steps.map (·.rename r))).workspace =
        renameAnswer r ((standard.generator indent).generate (Desk.run shapes steps).workspace) := by
  refine ⟨generate_rename, Workspace.edits_commute r, Satellite.changes_commute r,
    fun shapes steps hload => ?_⟩
  have hrun : Desk.run shapes (steps.map (·.rename r)) = (Desk.run shapes steps).rename r :=
    Desk.run_rename hload
  exact ⟨hrun, fun indent => hrun ▸ generate_rename indent _⟩

/-- A text that is printed, built with the ids of the two blocks the one way and the other. -/
theorem ids_immaterial_of_swapped :
    let r := Equiv.swap (⟨"a"⟩ : BlockId) ⟨"b"⟩
    let steps : List Desk.Step := [.edit (.add ⟨"a"⟩ "text_print" false), .edit (.add ⟨"b"⟩ "text" false),
      .edit (.setField ⟨"b"⟩ "TEXT" (.text "hi")), .edit (.connectValue ⟨"a"⟩ "TEXT" ⟨"b"⟩)]
    steps.map (·.rename r) = [.edit (.add ⟨"b"⟩ "text_print" false), .edit (.add ⟨"a"⟩ "text" false),
      .edit (.setField ⟨"a"⟩ "TEXT" (.text "hi")), .edit (.connectValue ⟨"b"⟩ "TEXT" ⟨"a"⟩)] ∧
    (∀ text, Desk.Step.edit (.load text) ∉ steps) ∧
    (standard.generator 4).generate (Desk.run standard.shapes (steps.map (·.rename r))).workspace =
      .ok "print('hi')\n" := by
  intro r steps
  have hload : ∀ text, Desk.Step.edit (.load text) ∉ steps := by simp [steps]
  have hcode : (standard.generator 4).generate (Desk.run standard.shapes steps).workspace =
      .ok "print('hi')\n" := by decide +kernel
  refine ⟨by decide, hload, ?_⟩
  rw [((ids_immaterial r).2.2.2 standard.shapes steps hload).2 4, hcode]
  rfl

end BlockProgram.Python
