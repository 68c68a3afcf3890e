import BlockProgram.Proofs.Workspace.Forest

/-! What edits leave alone. Edits of links leave alone all of a block but its links; and no edit whatever
changes the shapes that a workspace knows, or puts two blocks under one id. -/
namespace BlockProgram.Workspace

open Edit

variable {P : Workspace → Prop} {Q : Block → Prop} {shapes : ShapeRegistry} {id : BlockId}
  {w : Workspace}

/-- The workspace has the given shapes, and its blocks have the given property. -/
structure Bears (shapes : ShapeRegistry) (Q : Block → Prop) (w : Workspace) : Prop where
  shapes : w.shapes = shapes
  blocks : ∀ b ∈ w.blocks, Q b

/-- The property is not about links. -/
structure LinkFree (P : Workspace → Prop) : Prop where
  modify : ∀ (w : Workspace) id f, (∀ b, (f b).bare = b.bare) → P w → P (w.modify id f)

/-- The property is not about links, and not about any block to be there. -/
structure Hereditary (P : Workspace → Prop) : Prop extends LinkFree P where
  withoutSubtree : ∀ (w : Workspace) id, P w → P (w.withoutSubtree id)

/-- The property is about the shapes and the ids alone, and an empty workspace has it. -/
structure Steady (P : Workspace → Prop) : Prop where
  modify : ∀ (w : Workspace) id f, (∀ b, (f b).id = b.id) → P w → P (w.modify id f)
  withoutSubtree : ∀ (w : Workspace) id, P w → P (w.withoutSubtree id)
  added : ∀ (w : Workspace) b, ¬ w.has b.id → P w → P (w.added b)
  empty : ∀ w : Workspace, P w → P (.empty w.shapes)

theorem hereditary_bears (hQ : ∀ b b' : Block, b'.bare = b.bare → Q b → Q b') :
    Hereditary (Bears shapes Q) where
  modify w id f hf h := by
    refine ⟨h.shapes, fun b hb => ?_⟩
    obtain ⟨d, hd, rfl⟩ := List.mem_map.mp hb
    split
    · exact hQ d _ (hf d) (h.blocks d hd)
    · exact h.blocks d hd
  withoutSubtree w id h := ⟨h.shapes, fun b hb => h.blocks b (List.mem_filter.mp hb).1⟩

theorem Steady.hereditary (h : Steady P) : Hereditary P where
  modify w id f hf := h.modify w id f fun b =>
    show (f b).bare.id = b.bare.id from congrArg Block.id (hf b)
  withoutSubtree := h.withoutSubtree

private theorem keeps_require : (require id).Keeps P := by
  intro w h
  rw [ensures_require]
  cases w.find? id <;> exact h

private theorem keeps_requireShape {b : Block} : (requireShape b).Keeps P := by
  intro w h
  rw [ensures_requireShape]
  cases w.shapes.get? b.type <;> exact h

private theorem keeps_requireSocket {name : String} {kind : SocketKind} :
    (requireSocket id name kind).Keeps P := by
  unfold requireSocket
  refine keeps_require.bind fun b => ?_
  split
  · exact .throw
  · split
    · exact .pure
    · exact .throw

private theorem keeps_refuseCycle {p c : BlockId} : (refuseCycle p c).Keeps P := by
  unfold refuseCycle
  refine Keeps.get.bind fun w => ?_
  split
  · exact .throw
  · exact .pure

private theorem keeps_update {f : Block → Block} (hf : ∀ w, P w → P (w.modify id f)) :
    (update id f).Keeps P := by
  unfold update
  exact keeps_require.bind fun _ => .modify hf

namespace LinkFree

variable (hP : LinkFree P)
include hP

private theorem place {place : Option Attachment} :
    (update id fun b => { b with parent := place }).Keeps P :=
  keeps_update fun w => hP.modify w id _ fun _ => rfl

private theorem next {next : Option BlockId} : (update id fun b => { b with next := next }).Keeps P :=
  keeps_update fun w => hP.modify w id _ fun _ => rfl

private theorem plug {s : String} {target : Option BlockId} :
    (update id fun b => b.plug s target).Keeps P :=
  keeps_update fun w => hP.modify w id _ fun b => b.bare_plug s target

theorem detach : (detach id).Keeps P := by
  unfold Workspace.detach
  refine keeps_require.bind fun b => ?_
  split
  · exact .pure
  · refine hP.place.bind fun _ => ?_
    split
    · exact hP.plug
    · exact hP.next

theorem attachInput {p c : BlockId} {s : String} : (attachInput p s c).Keeps P := by
  unfold Workspace.attachInput
  exact keeps_require.bind fun b => .check (hP.plug.bind fun _ => hP.place)

theorem attachNext {p c : BlockId} : (attachNext p c).Keeps P := by
  unfold Workspace.attachNext
  exact hP.next.bind fun _ => hP.place

theorem spliceAfterChain {head tail : BlockId} : (spliceAfterChain head tail).Keeps P := by
  unfold Workspace.spliceAfterChain
  refine Keeps.get.bind fun w => keeps_require.bind fun b => ?_
  split
  · refine keeps_require.bind fun b => ?_
    split
    · exact hP.attachNext
    · exact .pure
  · exact .pure

theorem unplug {heal : Bool} : (unplug id heal).Keeps P := by
  unfold Workspace.unplug
  refine keeps_require.bind fun b => hP.detach.bind fun _ => ?_
  split
  · split
    · exact .pure
    · refine hP.detach.bind fun _ => ?_
      split
      · exact hP.attachInput
      · exact hP.attachNext
      · exact .pure
  · exact .pure

theorem connectStatement {p c : BlockId} {s : String} : (connectStatement p s c).Keeps P := by
  unfold Workspace.connectStatement
  refine keeps_requireSocket.bind fun k => keeps_require.bind fun b => .check ?_
  split
  · refine keeps_refuseCycle.bind fun _ => hP.detach.bind fun _ => ?_
    split
    · exact hP.detach.bind fun _ => hP.attachInput.bind fun _ => hP.spliceAfterChain
    · exact hP.attachInput.bind fun _ => .pure
  · exact .pure

theorem connectNext {p c : BlockId} : (connectNext p c).Keeps P := by
  unfold Workspace.connectNext
  refine keeps_require.bind fun b => .check (keeps_require.bind fun b => .check ?_)
  split
  · refine keeps_refuseCycle.bind fun _ => hP.detach.bind fun _ => ?_
    split
    · exact hP.detach.bind fun _ => hP.attachNext.bind fun _ => hP.spliceAfterChain
    · exact hP.attachNext.bind fun _ => .pure
  · exact .pure

end LinkFree

namespace Hereditary

variable (hP : Hereditary P)
include hP

theorem sever : (sever id).Keeps P := by
  unfold Workspace.sever
  refine hP.detach.bind fun _ => keeps_require.bind fun b => ?_
  split
  · exact .modify fun w => hP.withoutSubtree w id
  · exact .pure

theorem delete {heal : Bool} : (delete id heal).Keeps P := by
  unfold Workspace.delete
  split
  · exact hP.unplug.bind fun _ => .modify fun w => hP.withoutSubtree w id
  · exact hP.detach.bind fun _ => .modify fun w => hP.withoutSubtree w id

theorem connectValue {p c : BlockId} {s : String} : (connectValue p s c).Keeps P := by
  unfold Workspace.connectValue
  refine keeps_requireSocket.bind fun k => keeps_require.bind fun b => .check (.check ?_)
  split
  · refine keeps_refuseCycle.bind fun _ => hP.detach.bind fun _ => ?_
    split
    · exact hP.sever.bind fun _ => hP.attachInput
    · exact hP.attachInput
  · exact .pure

section rebuild

variable {shape : Shape} {m : Mutation}
variable (hre : ∀ (w : Workspace) sockets, sockets.map Socket.emptied = shape.layout m → P w →
  P (w.modify id fun b => { b with
    sockets
    connectors := shape.connectorsOf m
    fields := showMutation shape m b.fields
    mutation := m }))
include hre

omit hP hre in
private theorem map_emptied_carry {old : Socket} {target : BlockId} {keep : Bool}
    {fresh out : List Socket} (h : carry old target keep fresh = some out) :
    out.map Socket.emptied = fresh.map Socket.emptied := by
  induction fresh generalizing out with
  | nil => cases h
  | cons s rest ih =>
    unfold carry at h
    split at h
    · cases h
      rfl
    · obtain ⟨out, hout, rfl⟩ := Option.map_eq_some_iff.mp h
      rw [List.map_cons, List.map_cons, ih hout]

omit hP hre in
/-- The sockets that carry targets over are those of the new layout. -/
theorem map_emptied_carryAll {keep : Bool} (olds fresh : List Socket) :
    (carryAll keep olds fresh).1.map Socket.emptied = fresh.map Socket.emptied := by
  induction olds generalizing fresh with
  | nil => rfl
  | cons s rest ih =>
    unfold carryAll
    split
    · exact ih fresh
    · split
      · rename_i hcarry
        exact (ih _).trans (map_emptied_carry hcarry)
      · exact ih fresh

theorem rebuild {keep : Bool} : (rebuild id shape m keep).Keeps P := by
  unfold Workspace.rebuild
  refine keeps_require.bind fun b => (Keeps.forM (fun _ => hP.sever) _).bind fun _ =>
    (keeps_update fun w => hre w _ ?_).bind fun _ => ?_
  · rw [map_emptied_carryAll, Shape.map_emptied_layout]
  · split
    · refine keeps_require.bind fun b => ?_
      split
      · exact hP.detach
      · exact .pure
    · exact .pure

theorem applyDiff {diff : LayoutDiff} : (applyDiff id shape m diff).Keeps P := by
  have hrest : (do
      let lost := (← require id).sockets.filter fun s => s.name ∈ diff.removed
      (lost.filterMap (·.target)).forM Workspace.sever
      Workspace.rebuild id shape m true : Edit EditError Unit).Keeps P :=
    keeps_require.bind fun b => (Keeps.forM (fun _ => hP.sever) _).bind fun _ => hP.rebuild hre
  unfold Workspace.applyDiff
  split
  · exact hP.unplug.bind fun _ => hrest
  · exact hrest

theorem replant {plan : List (String × BlockId)} : (replant id shape m plan).Keeps P := by
  unfold Workspace.replant
  refine keeps_require.bind fun b => (Keeps.forM (fun c => ?_) _).bind fun _ =>
    (Keeps.forM (fun _ => hP.detach) _).bind fun _ => (hP.rebuild hre).bind fun _ =>
      .forM (fun _ => hP.attachInput) _
  split
  · exact hP.detach
  · exact hP.sever

end rebuild

theorem restoreConnection (c : Connection) : (restoreConnection c).Keeps P := by
  unfold Workspace.restoreConnection
  refine keeps_require.refusedAs.bind fun _ => .check (keeps_require.refusedAs.bind fun _ => ?_)
  split
  · split
    · exact .throw
    · refine .check ?_
      split
      · exact hP.connectStatement.refusedAs
      · exact hP.connectValue.refusedAs
  · exact .check hP.connectNext.refusedAs

/-- A document whose blocks may come in leads to a workspace that may be. -/
theorem restored {d : Document} (h : d.restore shapes = .ok w)
    (hblock : ∀ (w : Workspace) (r : BlockRecord) shape m, P w → ¬ w.has r.id → r.Reads w.shapes shape m →
      P (w.added (r.block shape m))) (hempty : P (.empty shapes)) : P w := by
  have hall : (restoreAll d).Ensures (.empty shapes) (fun _ w' => P w') fun _ _ => True := by
    unfold restoreAll
    rw [ensures_bind]
    refine (ensures_forM (I := fun _ => P) (fun r _ w' h' => ?_) d.blocks _ hempty).mono
      (fun _ w' h' => ?_) fun _ _ h' => h'
    · exact ensures_restoreBlock (fun hn shape m hr => hblock w' r shape m h' hn hr) fun _ _ _ => trivial
    · exact ensures_forM (I := fun _ => P)
        (fun c _ w'' h'' => (hP.restoreConnection c w'' h'').mono (fun _ _ h' => h')
          fun _ _ _ => trivial) d.connections w' h'
  exact hall.of_ok (restoreAll_of_restore h)

end Hereditary

namespace Steady

variable (hP : Steady P)
include hP

private theorem add {type : String} {shadow : Bool} : (add id type shadow).Keeps P := by
  intro w h
  unfold Workspace.add
  rw [ensures_bind, ensures_get]
  dsimp only
  split
  · exact h
  · rename_i hn
    cases w.shapes.get? type with
    | none => exact h
    | some shape => exact hP.added w (freshBlock shape id type shadow) hn h

private theorem applyEvent {event : Mutation.Event} : (applyEvent id event).Keeps P := by
  unfold Workspace.applyEvent
  exact keeps_require.refusedAs.bind fun b => keeps_requireShape.refusedAs.bind fun shape =>
    Keeps.ofResult.bind fun _ => (hP.hereditary.applyDiff fun w _ _ => hP.modify w id _
      fun _ => rfl).refusedAs.bind fun _ => .pure

private theorem setField {name : String} {value : FieldValue} :
    (setField id name value).Keeps P := fun w h =>
  Workspace.ensures_setField (fun _ _ _ _ _ _ => hP.applyEvent w h)
    (fun _ _ _ _ _ _ => hP.modify w id _ (fun _ => rfl) h) fun _ => h

private theorem compose {s : Satellite} : (compose s).Keeps P := by
  unfold Workspace.compose
  refine keeps_require.refusedAs.bind fun b => keeps_requireShape.refusedAs.bind fun shape => ?_
  split
  · exact .throw
  · exact Keeps.ofResult.bind fun _ => Keeps.get.bind fun _ => (hP.hereditary.replant fun w _ _ =>
      hP.modify w _ _ fun _ => rfl).refusedAs.bind fun _ => .pure

private theorem restored {d : Document} (h : d.restore shapes = .ok w) (hempty : P (.empty shapes)) :
    P w :=
  hP.hereditary.restored h (fun w r shape m h hn _ => hP.added w (r.block shape m) hn h) hempty

private theorem load {text : String} : (load text).Keeps P :=
  keeps_loaded fun w _ _ h ho => hP.restored ho (hP.empty w h)

private theorem apply (h : P w) (a : Action) : P (a.apply w) := by
  cases a with
  | add => exact hP.add.perform h
  | delete => exact hP.hereditary.delete.perform h
  | setField => exact hP.setField.perform h
  | connectValue => exact hP.hereditary.connectValue.perform h
  | connectStatement => exact hP.hereditary.connectStatement.perform h
  | connectNext => exact hP.hereditary.connectNext.perform h
  | disconnect => exact hP.hereditary.detach.perform h
  | unplug => exact hP.hereditary.unplug.perform h
  | reshape => exact hP.applyEvent.perform h
  | setVariant => exact hP.applyEvent.perform h
  | load => exact hP.load.perform h

end Steady

private theorem steady_shapes : Steady fun w => w.shapes = shapes :=
  ⟨fun _ _ _ _ h => h, fun _ _ h => h, fun _ _ _ h => h, fun _ h => h⟩

private theorem steady_ids : Steady fun w => w.ids.Nodup where
  modify w id f hf h := by rwa [ids_modify hf]
  withoutSubtree w id h := by
    rw [ids_withoutSubtree]
    exact h.filter _
  added w b hn h := by
    have hids : (w.added b).ids = w.ids ++ [b.id] := by simp [ids, added]
    rw [hids]
    simpa using List.Nodup.concat (fun hm => hn (has_iff_mem_ids.mpr hm)) h
  empty _ _ := .nil

/-- The workspaces that edits, documents and satellites lead to, be the satellites saved in them or
elsewhere. -/
inductive Reached (shapes : ShapeRegistry) : Workspace → Prop where
  | empty : Reached shapes (.empty shapes)
  | restored {w : Workspace} {d : Document} (h : d.restore shapes = .ok w) : Reached shapes w
  | act {w : Workspace} (h : Reached shapes w) (a : Action) : Reached shapes (a.apply w)
  | compose {w : Workspace} (h : Reached shapes w) (s : Satellite) :
    Reached shapes ((Workspace.compose s).perform w).2

namespace Reached

private theorem steady (h : Reached shapes w) (hP : Steady P) (hempty : P (.empty shapes)) : P w := by
  induction h with
  | empty => exact hempty
  | restored h => exact hP.restored h hempty
  | act _ a ih => exact hP.apply ih a
  | compose _ s ih => exact hP.compose.perform ih

theorem shapes_eq (h : Reached shapes w) : w.shapes = shapes := h.steady steady_shapes rfl

theorem nodup (h : Reached shapes w) : w.ids.Nodup := h.steady steady_ids .nil

/-- Composing keeps a workspace sound, except that it may close circles and plug in what does not fit. -/
theorem sound (h : Reached Python.standard.shapes w) : Sound False False w := by
  induction h with
  | empty => exact sound_empty Python.standard_distinct False.elim
  | restored h => exact sound_of_restore Python.standard_distinct False.elim h
  | act _ a ih => exact ih.apply a
  | compose h s ih =>
    have hfitting {b : Block} {shape : Shape} {m : Mutation} (hc : Composable s _ b shape m) :=
      ih.fitting (h.shapes_eq ▸ Python.standard_plain) hc
    exact (ih.ensures_compose (s := s) fun _ _ _ hc => hfitting hc).mono
      (fun _ _ ⟨_, _, _, hc, _, hsound⟩ => hsound False.elim (hfitting hc)) (fun _ _ h' => h'.1) |>.after

end Reached

theorem Edited.reached (h : Edited shapes w) : Reached shapes w := by
  induction h with
  | empty => exact .empty
  | act _ a ih => exact ih.act a
  | compose _ _ _ ih => exact ih.compose _

end BlockProgram.Workspace
