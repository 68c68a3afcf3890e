import BlockProgram.Proofs.Edit.Outcome
import BlockProgram.Proofs.Workspace.Desk
import BlockProgram.Proofs.Workspace.Renaming
import Mathlib.Data.List.InsertIdx

/-! Edits do the same whatever the ids of blocks are. -/
namespace BlockProgram

variable {r : Equiv.Perm BlockId}

namespace Edit

variable {ε ε' α β : Type} [Renamable ε] [Renamable ε'] [Renamable α] [Renamable β]

/-- The second edit does with other ids what the first one does. -/
def Commutes (r : Equiv.Perm BlockId) (e e' : Edit ε α) : Prop :=
  ∀ w, e'.perform (w.rename r) = rename r (e.perform w)

namespace Commutes

theorem bind {e e' : Edit ε α} {f f' : α → Edit ε β} (he : Commutes r e e')
    (hf : ∀ a, Commutes r (f a) (f' (rename r a))) : Commutes r (e >>= f) (e' >>= f') := by
  intro w
  rw [perform_bind, perform_bind, he w]
  rcases e.perform w with ⟨_ | a, w'⟩
  · rfl
  · exact hf a w'

theorem pure {a : α} : Commutes r (Pure.pure a : Edit ε α) (Pure.pure (rename r a)) := fun _ => rfl

theorem throw {err : ε} : Commutes r (MonadExcept.throw err : Edit ε α)
    (MonadExcept.throw (rename r err)) := fun _ => rfl

theorem get : Commutes r (MonadState.get : Edit ε Workspace) MonadState.get := fun _ => rfl

theorem modify {f f' : Workspace → Workspace} (hf : ∀ w, f' (w.rename r) = (f w).rename r) :
    Commutes r (modifyThe Workspace f : Edit ε PUnit) (modifyThe Workspace f') := fun w =>
  congrArg (Prod.mk _) (hf w)

/-- A check before the rest of an edit. -/
theorem check {c c' : Prop} [Decidable c] [Decidable c'] {err err' : ε} {f f' : PUnit → Edit ε α}
    (hc : c' ↔ c) (herr : err' = rename r err) (hf : Commutes r (f ⟨⟩) (f' ⟨⟩)) :
    Commutes r (if c then MonadExcept.throw err >>= f else f ⟨⟩)
      (if c' then MonadExcept.throw err' >>= f' else f' ⟨⟩) := by
  simp only [hc]
  split
  · exact herr ▸ fun _ => rfl
  · exact hf

theorem ite {c c' : Prop} [Decidable c] [Decidable c'] {e e' f f' : Edit ε α} (hc : c' ↔ c)
    (he : Commutes r e e') (hf : Commutes r f f') :
    Commutes r (if c then e else f) (if c' then e' else f') := by
  simp only [hc]
  split
  · exact he
  · exact hf

theorem refusedAs {e e' : Edit ε α} {g : ε → ε'} (he : Commutes r e e')
    (hg : ∀ err, g (rename r err) = rename r (g err)) : Commutes r (e.refusedAs g) (e'.refusedAs g) := by
  intro w
  have h (e : Edit ε α) (w : Workspace) :
      (e.refusedAs g).perform w = ((e.perform w).1.mapError g, (e.perform w).2) := rfl
  rw [h, h, he w]
  rcases e.perform w with ⟨err | a, w'⟩
  · exact congrArg (fun err => (Except.error err, w'.rename r)) (hg err)
  · rfl

theorem ofResult {result result' : Except ε α} (h : result' = rename r result) :
    Commutes r (Edit.ofResult result) (Edit.ofResult result') := h ▸ fun _ => rfl

theorem discard {e e' : Edit ε α} (he : Commutes r e e') :
    Commutes r (Functor.discard e) (Functor.discard e') :=
  he.bind (f := fun _ => Pure.pure PUnit.unit) fun _ => pure

theorem forM {γ : Type} {f f' : γ → Edit ε PUnit} {g : γ → γ} (hf : ∀ a, Commutes r (f a) (f' (g a)))
    (l : List γ) : Commutes r (l.forM f) ((l.map g).forM f') := by
  induction l with
  | nil => exact pure
  | cons a rest ih => exact (hf a).bind fun _ => ih

end Commutes

end Edit

namespace Workspace

open Edit

variable {id p c x : BlockId} {s : String}

private theorem commutes_require : Commutes r (require id) (require (r id)) := by
  refine .bind .get fun w => ?_
  simp only [rename_workspace, find?_rename]
  cases w.find? id with
  | none => exact .throw
  | some b => exact .pure

private theorem commutes_requireShape {b : Block} : Commutes r (requireShape b) (requireShape (b.rename r)) := by
  refine .bind .get fun w => ?_
  simp only [rename_workspace, rename_shapes, Block.rename_type]
  cases w.shapes.get? b.type with
  | none => exact .throw
  | some shape => exact .pure

private theorem commutes_update {f f' : Block → Block} (hf : ∀ b, f' (b.rename r) = (f b).rename r) :
    Commutes r (update id f) (update (r id) f') :=
  .bind commutes_require fun _ => .modify fun _ => modify_rename hf

private theorem commutes_detach : Commutes r (detach id) (detach (r id)) := by
  refine .bind commutes_require fun b => ?_
  simp only [rename_block, Block.rename_parent]
  cases b.parent with
  | none => exact .pure
  | some place =>
    refine .bind (commutes_update fun _ => rfl) fun _ => ?_
    cases place with
    | input above socket => exact commutes_update fun b => b.plug_rename socket none
    | next before => exact commutes_update fun _ => rfl

private theorem commutes_sever : Commutes r (sever id) (sever (r id)) := by
  refine .bind commutes_detach fun _ => .bind commutes_require fun b => ?_
  exact .ite Iff.rfl (.modify fun _ => withoutSubtree_rename) .pure

private theorem commutes_attachInput : Commutes r (attachInput p s c) (attachInput (r p) s (r c)) := by
  refine .bind commutes_require fun b => .check ?_ rfl ?_
  · simp [Block.socket?_rename]
  · exact .bind (commutes_update fun b => b.plug_rename s (some c)) fun _ => commutes_update fun _ => rfl

private theorem commutes_attachNext : Commutes r (attachNext p c) (attachNext (r p) (r c)) :=
  .bind (commutes_update fun _ => rfl) fun _ => commutes_update fun _ => rfl

private theorem commutes_spliceAfterChain : Commutes r (spliceAfterChain p c) (spliceAfterChain (r p) (r c)) := by
  refine .bind .get fun w => ?_
  simp only [rename_workspace, lastInChain_rename]
  refine .bind commutes_require fun last => .ite Iff.rfl ?_ .pure
  exact .bind commutes_require fun tail => .ite Iff.rfl commutes_attachNext .pure

private theorem commutes_refuseCycle : Commutes r (refuseCycle p c) (refuseCycle (r p) (r c)) := by
  refine .bind .get fun w => .ite ?_ .throw .pure
  simp [isAncestor_rename]

private theorem commutes_requireSocket {kind : SocketKind} :
    Commutes r (requireSocket p s kind) (requireSocket (r p) s kind) := by
  refine .bind commutes_require fun b => ?_
  simp only [rename_block, Block.socket?_rename]
  cases b.socket? s with
  | none => exact .throw
  | some k => exact .ite Iff.rfl .pure .throw

private theorem freshBlock_rename {shape : Shape} {type : String} {shadow : Bool} :
    (freshBlock shape id type shadow).rename r = freshBlock shape (r id) type shadow := by
  simp [freshBlock, Block.rename, shape.layout_rename]

private theorem commutes_add {type : String} {shadow : Bool} :
    Commutes r (add id type shadow) (add (r id) type shadow) := by
  refine .bind .get fun w => .check (by simp [has_rename]) rfl ?_
  simp only [rename_workspace, rename_shapes]
  cases w.shapes.get? type with
  | none => exact .throw
  | some shape =>
    -- layout order is the order in which blocks were added
    have hset : ({ w.rename r with
        blocks := (w.rename r).blocks ++ [freshBlock shape (r id) type shadow] } : Workspace) =
        { w with blocks := w.blocks ++ [freshBlock shape id type shadow] }.rename r := by
      simp [Workspace.rename, freshBlock_rename]
    exact fun _ => congrArg (Prod.mk (Except.ok ())) hset

private theorem commutes_unplug {heal : Bool} : Commutes r (unplug id heal) (unplug (r id) heal) := by
  refine .bind commutes_require fun b => .bind commutes_detach fun _ => .ite Iff.rfl ?_ .pure
  simp only [rename_block, Block.rename_next, Block.rename_parent]
  cases b.next with
  | none => exact .pure
  | some next =>
    refine .bind commutes_detach fun _ => ?_
    rcases b.parent with _ | ⟨above, socket⟩ | before
    · exact .pure
    · exact commutes_attachInput
    · exact commutes_attachNext

private theorem commutes_delete {heal : Bool} : Commutes r (delete id heal) (delete (r id) heal) := by
  have hdrop : Commutes r (modifyThe Workspace (·.withoutSubtree id) : Edit EditError PUnit)
      (modifyThe Workspace (·.withoutSubtree (r id))) := .modify fun _ => withoutSubtree_rename
  unfold delete
  cases heal
  · exact .bind commutes_detach fun _ => hdrop
  · exact .bind commutes_unplug fun _ => hdrop

private theorem commutes_connectValue : Commutes r (connectValue p s c) (connectValue (r p) s (r c)) := by
  refine .bind commutes_requireSocket fun k => .bind commutes_require fun d => ?_
  refine .check Iff.rfl rfl (.check Iff.rfl rfl (.ite ?_ ?_ .pure))
  · cases ht : k.target <;> simp [ht]
  · refine .bind commutes_refuseCycle fun _ => .bind commutes_detach fun _ => ?_
    simp only [rename_socket, Socket.rename_target]
    cases k.target with
    | none => exact commutes_attachInput
    | some old => exact .bind commutes_sever fun _ => commutes_attachInput

private theorem commutes_connectStatement :
    Commutes r (connectStatement p s c) (connectStatement (r p) s (r c)) := by
  refine .bind commutes_requireSocket fun k => .bind commutes_require fun d => ?_
  refine .check Iff.rfl rfl (.ite ?_ ?_ .pure)
  · cases ht : k.target <;> simp [ht]
  · refine .bind commutes_refuseCycle fun _ => .bind commutes_detach fun _ => ?_
    simp only [rename_socket, Socket.rename_target]
    cases k.target with
    | none => exact .bind commutes_attachInput fun _ => .pure
    | some old =>
      exact .bind commutes_detach fun _ => .bind commutes_attachInput fun _ => commutes_spliceAfterChain

private theorem commutes_connectNext : Commutes r (connectNext p c) (connectNext (r p) (r c)) := by
  refine .bind commutes_require fun b => .check Iff.rfl rfl (.bind commutes_require fun d => ?_)
  refine .check Iff.rfl rfl (.ite ?_ ?_ .pure)
  · cases hn : b.next <;> simp [hn]
  · refine .bind commutes_refuseCycle fun _ => .bind commutes_detach fun _ => ?_
    simp only [rename_block, Block.rename_next]
    cases b.next with
    | none => exact .bind commutes_attachNext fun _ => .pure
    | some old =>
      exact .bind commutes_detach fun _ => .bind commutes_attachNext fun _ => commutes_spliceAfterChain

private theorem carry_rename (old : Socket) (target : BlockId) (keep : Bool) (fresh : List Socket) :
    carry (old.rename r) (r target) keep (fresh.map (Socket.rename r)) =
      (carry old target keep fresh).map (List.map (Socket.rename r)) := by
  induction fresh with
  | nil => rfl
  | cons s rest ih =>
    simp only [List.map_cons, carry, Socket.rename_name, Socket.rename_kind, Socket.rename_structural, ih]
    split
    · rfl
    · cases carry old target keep rest <;> rfl

private theorem carryAll_rename (keep : Bool) (old fresh : List Socket) :
    carryAll keep (old.map (Socket.rename r)) (fresh.map (Socket.rename r)) =
      ((carryAll keep old fresh).1.map (Socket.rename r), (carryAll keep old fresh).2.map r) := by
  induction old generalizing fresh with
  | nil => rfl
  | cons s rest ih =>
    simp only [List.map_cons, carryAll, Socket.rename_target]
    cases s.target with
    | none => exact ih fresh
    | some target =>
      simp only [Option.map_some, carry_rename]
      cases carry s target keep fresh with
      | none => simp [ih]
      | some fresh' => exact ih fresh'

private theorem commutes_rebuild {shape : Shape} {m : Mutation} {keep : Bool} :
    Commutes r (rebuild id shape m keep) (rebuild (r id) shape m keep) := by
  refine .bind commutes_require fun b => ?_
  -- a fresh layout is its own renaming, so what is carried over and what is lost go with the ids
  have hcarry := carryAll_rename (r := r) keep b.sockets (shape.layout m)
  rw [shape.layout_rename] at hcarry
  simp only [rename_block, Block.rename_sockets, hcarry]
  refine .bind (.forM (fun _ => commutes_sever) _) fun _ => ?_
  refine .bind (commutes_update fun _ => rfl) fun _ => .ite Iff.rfl ?_ .pure
  refine .bind commutes_require fun b' => ?_
  simp only [rename_block, Block.rename_next]
  cases b'.next with
  | none => exact .pure
  | some next => exact commutes_detach

private theorem commutes_applyDiff {shape : Shape} {m : Mutation} {diff : LayoutDiff} :
    Commutes r (applyDiff id shape m diff) (applyDiff (r id) shape m diff) := by
  have hrest : Commutes r (do
      let lost := (← require id).sockets.filter fun s => s.name ∈ diff.removed
      (lost.filterMap (·.target)).forM sever
      rebuild id shape m true) (do
      let lost := (← require (r id)).sockets.filter fun s => s.name ∈ diff.removed
      (lost.filterMap (·.target)).forM sever
      rebuild (r id) shape m true) := by
    refine .bind commutes_require fun b => ?_
    have hlost : ((b.rename r).sockets.filter fun s => s.name ∈ diff.removed).filterMap (·.target) =
        ((b.sockets.filter fun s => s.name ∈ diff.removed).filterMap (·.target)).map r := by
      simp only [Block.rename_sockets, List.filter_map, List.filterMap_map, List.map_filterMap]
      rfl
    simp only [rename_block, hlost]
    exact .bind (.forM (fun _ => commutes_sever) _) fun _ => commutes_rebuild
  unfold applyDiff
  split
  · exact .bind commutes_unplug fun _ => hrest
  · exact hrest

/-- What is wrong with a mutation is said without ids. -/
theorem branchesOfUnits_rename (type : String) (elseIfs : Nat) (hasElse : Bool) (kinds : List String) :
    BlockProgram.rename r (Shape.branchesOfUnits type elseIfs hasElse kinds) =
      Shape.branchesOfUnits type elseIfs hasElse kinds := by
  induction kinds generalizing elseIfs hasElse with
  | nil => rfl
  | cons kind rest ih =>
    unfold Shape.branchesOfUnits
    split
    · exact ih _ _
    · split
      · split
        · rfl
        · exact ih _ _
      · rfl

private theorem requested_rename (shape : Shape) (m : Mutation) (event : Mutation.Event) :
    BlockProgram.rename r (shape.requested m event) = shape.requested m event := by
  cases event with
  | setCount n =>
    simp only [Shape.requested]
    split <;> rfl
  | setVariant name =>
    simp only [Shape.requested]
    split
    · split <;> rfl
    · rfl
  | compose kinds =>
    simp only [Shape.requested, Shape.ofUnits]
    split
    · split <;> rfl
    · exact branchesOfUnits_rename ..
    · rfl
    · rfl

theorem transition_rename (shape : Shape) (m : Mutation) (event : Mutation.Event) :
    BlockProgram.rename r (shape.transition m event) = shape.transition m event := by
  have hrequested := requested_rename (r := r) shape m event
  unfold Shape.transition
  simp only [bind, Except.bind]
  split
  · rfl
  · revert hrequested
    cases shape.requested m event with
    | error e => exact fun he => congrArg Except.error (Except.error.inj he)
    | ok next =>
      intro _
      dsimp only
      split <;> rfl

theorem commutes_applyEvent {event : Mutation.Event} :
    Commutes r (applyEvent id event) (applyEvent (r id) event) := by
  refine .bind (.refusedAs commutes_require fun _ => rfl) fun b => ?_
  refine .bind (.refusedAs commutes_requireShape fun _ => rfl) fun shape => ?_
  refine .bind (.ofResult (transition_rename ..).symm) fun (m, diff) => ?_
  exact .bind (.refusedAs commutes_applyDiff fun _ => rfl) fun _ => .pure

private theorem checkField_rename (shape : Shape) (name : String) (value : FieldValue) :
    checkField shape (r id) name value = BlockProgram.rename r (checkField shape id name value) := by
  unfold checkField
  split
  · rfl
  · split <;> rfl

private theorem commutes_setField {name : String} {value : FieldValue} :
    Commutes r (setField id name value) (setField (r id) name value) := by
  refine .bind (.refusedAs commutes_require fun _ => rfl) fun b => ?_
  refine .bind (.refusedAs commutes_requireShape fun _ => rfl) fun shape => ?_
  refine .bind (.refusedAs (.ofResult (checkField_rename ..)) fun _ => rfl) fun _ => ?_
  have hstore : Commutes r
      ((update id fun b => { b with fields := b.fields.insert name value }).refusedAs FieldError.edit)
      ((update (r id) fun b => { b with fields := b.fields.insert name value }).refusedAs .edit) :=
    .refusedAs (commutes_update fun _ => rfl) fun _ => rfl
  simp only [rename_shape]
  split
  · exact .ite Iff.rfl (.discard (.refusedAs commutes_applyEvent fun _ => rfl)) hstore
  · refine .ite Iff.rfl ?_ hstore
    split
    · exact .discard (.refusedAs commutes_applyEvent fun _ => rfl)
    · exact .throw
  · exact hstore

private theorem numbered_rename (kinds : List String) :
    (Satellite.numbered kinds).map (SatelliteUnit.rename r) = Satellite.numbered kinds := by
  refine List.ext_getElem (by simp [Satellite.numbered]) fun i _ _ => ?_
  simp [Satellite.numbered, SatelliteUnit.rename]

private theorem commutes_decompose : Commutes r (decompose id) (decompose (r id)) := by
  refine .bind (.refusedAs commutes_require fun _ => rfl) fun b => ?_
  refine .bind (.refusedAs commutes_requireShape fun _ => rfl) fun shape => ?_
  refine .check Iff.rfl rfl fun w => congrArg (fun s => (Except.ok s, w.rename r)) ?_
  exact congrArg (Satellite.mk _ _ _ · _) (numbered_rename _).symm

private theorem savedUnits_rename {b : Block} (units : List SatelliteUnit) (names : List (List String)) :
    savedUnits (b.rename r) (units.map (SatelliteUnit.rename r)) names =
      (savedUnits b units names).map (SatelliteUnit.rename r) := by
  induction units generalizing names with
  | nil => cases names <;> rfl
  | cons u units ih =>
    cases names with
    | nil => rfl
    | cons names rest =>
      simp [savedUnits, ih, SatelliteUnit.rename, Block.target?_rename]

private theorem kinds_rename (s : Satellite) : (s.rename r).kinds = s.kinds := by
  simp [Satellite.kinds, Function.comp_def]

private theorem commutes_saveConnections {s : Satellite} :
    Commutes r (saveConnections s) (saveConnections (s.rename r)) := by
  refine .bind (.refusedAs commutes_require fun _ => rfl) fun b => ?_
  refine .bind (.refusedAs commutes_requireShape fun _ => rfl) fun shape => ?_
  refine fun w => congrArg (fun s => (Except.ok s, w.rename r)) ?_
  simp only [rename_block, rename_shape, Satellite.rename_units, kinds_rename, savedUnits_rename]
  rfl

private theorem reattachable_rename {w : Workspace} {owner : BlockId} :
    (w.rename r).reattachable (r c) (r owner) = w.reattachable c owner := by
  unfold reattachable
  rw [find?_rename]
  cases w.find? c with
  | none => rfl
  | some b => rcases hp : b.parent with _ | ⟨above, _⟩ | before <;> simp [hp, Attachment.rename]

/-- A planned block goes to the socket that it goes to with other ids. -/
def renamePlan (r : Equiv.Perm BlockId) (plan : List (String × BlockId)) : List (String × BlockId) :=
  plan.map fun p => (p.1, r p.2)

private theorem any_renamePlan (plan : List (String × BlockId)) :
    ((renamePlan r plan).any fun p => p.2 = r c) = plan.any fun p => p.2 = c := by
  simp [renamePlan, Function.comp_def]

private theorem commutes_forM_plan {f f' : String × BlockId → Edit EditError PUnit}
    (hf : ∀ n x, Commutes r (f (n, x)) (f' (n, r x))) (plan : List (String × BlockId)) :
    Commutes r (plan.forM f) ((renamePlan r plan).forM f') :=
  .forM (fun p => hf p.1 p.2) plan

private theorem plan_rename {w : Workspace} {owner : BlockId} (slots : List (String × Option BlockId)) :
    (w.rename r).plan (r owner) (slots.map fun slot => (slot.1, slot.2.map r)) =
      renamePlan r (w.plan owner slots) := by
  unfold plan
  rw [List.foldl_map]
  change List.foldl _ (renamePlan r []) slots = _
  refine List.foldl_hom (renamePlan r) fun plan slot => ?_
  cases slot.2 with
  | none => rfl
  | some child =>
    simp only [Option.map_some, any_renamePlan, reattachable_rename]
    split
    · rfl
    · simp [renamePlan]

private theorem slots_rename (units : List SatelliteUnit) (names : List (List String)) :
    slots (units.map (SatelliteUnit.rename r)) names =
      (slots units names).map fun slot => (slot.1, slot.2.map r) := by
  simp only [slots, List.zip_map_left, List.flatMap_map, List.map_flatMap]
  refine List.flatMap_congr fun pair _ => ?_
  simp [List.zip_map_right]

private theorem commutes_replant {owner : BlockId} {shape : Shape} {m : Mutation}
    {plan : List (String × BlockId)} :
    Commutes r (replant owner shape m plan) (replant (r owner) shape m (renamePlan r plan)) := by
  refine .bind commutes_require fun b => ?_
  have hstructural : ((b.rename r).sockets.filter (·.structural)).filterMap (·.target) =
      ((b.sockets.filter (·.structural)).filterMap (·.target)).map r := by
    simp only [Block.rename_sockets, List.filter_map, List.filterMap_map, List.map_filterMap]
    rfl
  simp only [rename_block, hstructural]
  refine .bind (.forM (fun child => ?_) _) fun _ => ?_
  · exact .ite (by rw [any_renamePlan]) commutes_detach commutes_sever
  refine .bind (commutes_forM_plan (fun _ _ => commutes_detach) plan) fun _ => ?_
  exact .bind commutes_rebuild fun _ => commutes_forM_plan (fun _ _ => commutes_attachInput) plan

/-- Composing does under other ids what it does. -/
theorem commutes_compose {s : Satellite} : Commutes r (compose s) (compose (s.rename r)) := by
  refine .bind (.refusedAs commutes_require fun _ => rfl) fun b => ?_
  refine .bind (.refusedAs commutes_requireShape fun _ => rfl) fun shape => ?_
  have hunknown : ((s.rename r).units.find? fun u => !shape.placeholders.any fun p => p.kind = u.kind) =
      (s.units.find? fun u => !shape.placeholders.any fun p => p.kind = u.kind).map
        (SatelliteUnit.rename r) := by
    simp only [Satellite.rename_units, List.find?_map]
    rfl
  simp only [rename_shape, hunknown]
  cases s.units.find? fun u => !shape.placeholders.any fun p => p.kind = u.kind with
  | some u => exact .throw
  | none =>
    refine .bind (.ofResult (by rw [transition_rename, kinds_rename]; rfl)) fun (m, diff) => ?_
    refine .bind .get fun w => .bind (.refusedAs ?_ fun _ => rfl) fun _ => .pure
    simp only [rename_workspace, Satellite.rename_owner, Satellite.rename_units, kinds_rename,
      slots_rename, plan_rename]
    exact commutes_replant

/-- Each edit of a workspace does with other ids what it does: it makes the same change and gives the same
answer, or refuses for the same reason. -/
structure EditsCommute (r : Equiv.Perm BlockId) : Prop where
  add : ∀ id type shadow, Commutes r (Workspace.add id type shadow) (Workspace.add (r id) type shadow)
  delete : ∀ id heal, Commutes r (Workspace.delete id heal) (Workspace.delete (r id) heal)
  setField : ∀ id name value,
    Commutes r (Workspace.setField id name value) (Workspace.setField (r id) name value)
  connectValue : ∀ p s c,
    Commutes r (Workspace.connectValue p s c) (Workspace.connectValue (r p) s (r c))
  connectStatement : ∀ p s c,
    Commutes r (Workspace.connectStatement p s c) (Workspace.connectStatement (r p) s (r c))
  connectNext : ∀ p c, Commutes r (Workspace.connectNext p c) (Workspace.connectNext (r p) (r c))
  disconnect : ∀ id, Commutes r (Workspace.disconnect id) (Workspace.disconnect (r id))
  unplug : ∀ id heal, Commutes r (Workspace.unplug id heal) (Workspace.unplug (r id) heal)
  reshape : ∀ id count, Commutes r (Workspace.reshape id count) (Workspace.reshape (r id) count)
  setVariant : ∀ id variant,
    Commutes r (Workspace.setVariant id variant) (Workspace.setVariant (r id) variant)
  decompose : ∀ id, Commutes r (Workspace.decompose id) (Workspace.decompose (r id))
  saveConnections : ∀ s, Commutes r (Workspace.saveConnections s) (Workspace.saveConnections (s.rename r))
  compose : ∀ s, Commutes r (Workspace.compose s) (Workspace.compose (s.rename r))

/-- No edit looks at ids, except for whether two of them are the same. -/
theorem edits_commute (r : Equiv.Perm BlockId) : EditsCommute r where
  add _ _ _ := commutes_add
  delete _ _ := commutes_delete
  setField _ _ _ := commutes_setField
  connectValue _ _ _ := commutes_connectValue
  connectStatement _ _ _ := commutes_connectStatement
  connectNext _ _ := commutes_connectNext
  disconnect _ := commutes_detach
  unplug _ _ := commutes_unplug
  reshape _ _ := commutes_applyEvent
  setVariant _ _ := commutes_applyEvent
  decompose _ := commutes_decompose
  saveConnections _ := commutes_saveConnections
  compose _ := commutes_compose

end Workspace

namespace Satellite

variable {s : Satellite}

private theorem insert_rename (index : Nat) (kind : String) :
    (s.rename r).insert index kind = BlockProgram.rename r (s.insert index kind) := by
  have hcount : ((s.units.map (SatelliteUnit.rename r)).filter fun u => u.kind = kind).length =
      (s.units.filter fun u => u.kind = kind).length := by
    rw [List.filter_map, List.length_map]
    rfl
  simp only [insert, rename_allowed, rename_type, rename_units, rename_nextNumber, hcount, List.length_map]
  split
  · rfl
  · split
    · rfl
    · simp only [BlockProgram.rename, rename, List.map_insertIdx]
      rfl

private theorem push_rename (kind : String) :
    (s.rename r).push kind = BlockProgram.rename r (s.push kind) := by
  simp only [push, rename_units, List.length_map, insert_rename]

private theorem remove_rename (index : Nat) :
    (s.rename r).remove index = BlockProgram.rename r (s.remove index) := by
  simp only [remove, rename_units, List.getElem?_map, List.eraseIdx_map]
  rfl

private theorem move?_rename (start goal : Nat) :
    (s.rename r).move? start goal = BlockProgram.rename r (s.move? start goal) := by
  simp only [move?, rename_units, List.getElem?_map, List.length_map]
  cases s.units[start]? with
  | none => rfl
  | some u =>
    simp only [Option.map_some, List.eraseIdx_map]
    split
    · simp only [BlockProgram.rename, Option.map_some, rename, List.map_insertIdx]
    · rfl

/-- Each change of a satellite does with other ids what it does. -/
structure ChangesCommute (r : Equiv.Perm BlockId) : Prop where
  insert : ∀ (s : Satellite) index kind, (s.rename r).insert index kind = BlockProgram.rename r (s.insert index kind)
  push : ∀ (s : Satellite) kind, (s.rename r).push kind = BlockProgram.rename r (s.push kind)
  remove : ∀ (s : Satellite) index, (s.rename r).remove index = BlockProgram.rename r (s.remove index)
  move : ∀ (s : Satellite) start goal, (s.rename r).move? start goal = BlockProgram.rename r (s.move? start goal)

theorem changes_commute (r : Equiv.Perm BlockId) : ChangesCommute r where
  insert _ := insert_rename
  push _ := push_rename
  remove _ := remove_rename
  move _ := move?_rename

end Satellite

def Workspace.Action.rename (r : Equiv.Perm BlockId) : Action → Action
  | .add id type shadow => .add (r id) type shadow
  | .delete id heal => .delete (r id) heal
  | .setField id name value => .setField (r id) name value
  | .connectValue p s c => .connectValue (r p) s (r c)
  | .connectStatement p s c => .connectStatement (r p) s (r c)
  | .connectNext p c => .connectNext (r p) (r c)
  | .disconnect id => .disconnect (r id)
  | .unplug id heal => .unplug (r id) heal
  | .reshape id count => .reshape (r id) count
  | .setVariant id variant => .setVariant (r id) variant
  | .load text => .load text

def Desk.Step.rename (r : Equiv.Perm BlockId) : Desk.Step → Desk.Step
  | .edit action => .edit (action.rename r)
  | .decompose id => .decompose (r id)
  | step => step

@[simps]
def Desk.rename (r : Equiv.Perm BlockId) (d : Desk) : Desk :=
  ⟨d.workspace.rename r, d.satellites.map (·.rename r)⟩

/-- A text that is loaded has ids of its own, which no renaming reaches. -/
theorem Workspace.Action.apply_rename {a : Action} (hload : ∀ text, a ≠ .load text) (w : Workspace) :
    (a.rename r).apply (w.rename r) = (a.apply w).rename r := by
  cases a with
  | load text => exact absurd rfl (hload text)
  | add id type shadow => exact congrArg Prod.snd (Workspace.commutes_add w)
  | delete id heal => exact congrArg Prod.snd (Workspace.commutes_delete w)
  | setField id name value => exact congrArg Prod.snd (Workspace.commutes_setField w)
  | connectValue p s c => exact congrArg Prod.snd (Workspace.commutes_connectValue w)
  | connectStatement p s c => exact congrArg Prod.snd (Workspace.commutes_connectStatement w)
  | connectNext p c => exact congrArg Prod.snd (Workspace.commutes_connectNext w)
  | disconnect id => exact congrArg Prod.snd (Workspace.commutes_detach w)
  | unplug id heal => exact congrArg Prod.snd (Workspace.commutes_unplug w)
  | reshape id count => exact congrArg Prod.snd (Workspace.commutes_applyEvent w)
  | setVariant id variant => exact congrArg Prod.snd (Workspace.commutes_applyEvent w)

namespace Desk

private theorem revise_rename {ε : Type} [Renamable ε] {f f' : Satellite → Except ε Satellite}
    (hf : ∀ s, f' (s.rename r) = BlockProgram.rename r (f s)) (d : Desk) (i : Nat) :
    (d.rename r).revise i f' = (d.revise i f).rename r := by
  have hpoint (s : Satellite) :
      (f' (s.rename r)).toOption.getD (s.rename r) = ((f s).toOption.getD s).rename r := by
    rw [hf]
    cases f s <;> rfl
  have hsatellites : (d.satellites.map (Satellite.rename r)).modify i
        (fun s => (f' s).toOption.getD s) =
      (d.satellites.modify i fun s => (f s).toOption.getD s).map (Satellite.rename r) := by
    refine List.ext_getElem? fun j => ?_
    simp only [List.getElem?_modify, List.getElem?_map]
    cases d.satellites[j]? with
    | none => rfl
    | some s => split <;> simp [hpoint]
  exact congrArg (Desk.mk _) hsatellites

private theorem apply_rename {step : Step} (hload : ∀ text, step ≠ .edit (.load text)) (d : Desk) :
    (d.rename r).apply (step.rename r) = (d.apply step).rename r := by
  cases step with
  | edit a =>
    exact congrArg (Desk.mk · _) (a.apply_rename (fun text he => hload text (he ▸ rfl)) d.workspace)
  | decompose id =>
    have hperform : ((Workspace.decompose (r id)).perform (d.workspace.rename r)).1 =
        BlockProgram.rename r ((Workspace.decompose id).perform d.workspace).1 :=
      congrArg Prod.fst (Workspace.commutes_decompose d.workspace)
    simp only [Step.rename, apply, rename_workspace, hperform]
    rcases (Workspace.decompose id).perform d.workspace with ⟨_ | s, _⟩ <;> simp [rename] <;> rfl
  | copy i =>
    simp only [Step.rename, apply, rename_satellites, List.getElem?_map]
    cases d.satellites[i]? <;> simp [rename]
  | save i =>
    exact revise_rename (fun s => congrArg Prod.fst (Workspace.commutes_saveConnections d.workspace)) d i
  | push i kind => exact revise_rename (fun _ => Satellite.push_rename kind) d i
  | insert i index kind => exact revise_rename (fun _ => Satellite.insert_rename index kind) d i
  | remove i index =>
    exact revise_rename (fun s => congrArg (Except.ok ·.2) (s.remove_rename index)) d i
  | move i start goal =>
    refine revise_rename (fun s => ?_) d i
    rw [Satellite.move?_rename]
    cases s.move? start goal <;> rfl
  | compose i =>
    simp only [Step.rename, apply, rename_satellites, List.getElem?_map]
    cases d.satellites[i]? with
    | none => rfl
    | some s => exact congrArg (Desk.mk ·.2 _) (Workspace.commutes_compose d.workspace)

/-- Steps from an empty workspace build the same whatever ids are given to the blocks that they add. -/
theorem run_rename {shapes : ShapeRegistry} {steps : List Step}
    (hload : ∀ text, Step.edit (.load text) ∉ steps) :
    run shapes (steps.map (·.rename r)) = (run shapes steps).rename r := by
  have hfold (d : Desk) :
      (steps.map (·.rename r)).foldl apply (d.rename r) = (steps.foldl apply d).rename r := by
    induction steps generalizing d with
    | nil => rfl
    | cons step rest ih =>
      simp only [List.mem_cons, not_or] at hload
      rw [List.map_cons, List.foldl_cons, List.foldl_cons,
        apply_rename (fun text he => (hload text).1 he.symm)]
      exact ih (fun text => (hload text).2) _
  exact hfold ⟨.empty shapes, []⟩

end Desk

end BlockProgram
