import BlockProgram.Proofs.Workspace.Registry

/-! What the parts of a block say about its mutation agrees: its sockets, its connectors and its fields are
those that its shape has for it. Every edit changes all of them together, also where links form circles, and
where links go astray because two sockets have one name. -/
namespace BlockProgram

open Edit Workspace

variable {w : Workspace} {shapes : ShapeRegistry} {id : BlockId} {b b' : Block} {shape : Shape}
  {m : Mutation} {event : Mutation.Event} {r : BlockRecord}

/-- The parts of a block are such as its shape says for its mutation. -/
structure Block.Conforms (shape : Shape) (b : Block) : Prop where
  accepted : shape.accepts b.mutation
  sockets : b.sockets.map Socket.emptied = shape.layout b.mutation
  connectors : b.connectors = shape.connectorsOf b.mutation
  fields : shape.Fills b.fields
  shown : shape.Shows b.mutation b.fields

namespace Block.Conforms

theorem congr (h : b.Conforms shape) (hb : b'.bare = b.bare) : b'.Conforms shape := by
  have hmutation := Block.mutation_of_bare hb
  have hfields := Block.fields_of_bare hb
  refine ⟨hmutation ▸ h.accepted, ?_, ?_, hfields ▸ h.fields, ?_⟩
  · exact (congrArg Block.sockets hb).trans (hmutation ▸ h.sockets)
  · exact (congrArg Block.connectors hb).trans (hmutation ▸ h.connectors)
  · rw [hmutation, hfields]
    exact h.shown

theorem fresh (hc : shape.Consistent) (id : BlockId) (type : String) (shadow : Bool) :
    (freshBlock shape id type shadow).Conforms shape :=
  ⟨hc.accepts_initial, shape.map_emptied_layout shape.initial, rfl, hc.fills_defaults,
    hc.shows_initial⟩

/-- A block in the form of another mutation. -/
theorem refitted (hc : shape.Consistent) (hf : shape.Fills b.fields) (ha : shape.accepts m)
    {sockets : List Socket} (hs : sockets.map Socket.emptied = shape.layout m) :
    { b with
      sockets
      connectors := shape.connectorsOf m
      fields := showMutation shape m b.fields
      mutation := m }.Conforms shape :=
  ⟨ha, hs, rfl, hc.fills_showMutation ha hf, shape.shows_showMutation m b.fields⟩

/-- A field that shows nothing of the mutation. -/
theorem insert (h : b.Conforms shape) {name : String} {value : FieldValue}
    (hv : checkField shape id name value = .ok ()) (hplain : ∀ m v, shape.mirror m ≠ some (name, v)) :
    { b with fields := b.fields.insert name value }.Conforms shape := by
  obtain ⟨f, hspec, hallows⟩ := checkField_eq_ok.mp hv
  exact ⟨h.accepted, h.sockets, h.connectors, h.fields.insert hspec hallows, h.shown.insert (hplain _)⟩

end Block.Conforms

private theorem BlockRecord.Reads.conforms (h : r.Reads shapes shape m) (hc : shape.Consistent) :
    (r.block shape m).Conforms shape := by
  have hfills : shape.Fills (r.fields.entries.foldl
      (fun fields entry => fields.insert entry.1 entry.2) shape.defaults) := by
    have hall := h.fields
    generalize r.fields.entries = entries at hall
    induction entries using List.reverseRecOn with
    | nil => exact hc.fills_defaults
    | append_singleton entries entry ih =>
      obtain ⟨f, hspec, hallows⟩ := checkField_eq_ok.mp (hall entry (by simp))
      rw [List.foldl_append]
      exact (ih fun e he => hall e (by simp [he])).insert hspec hallows
  exact .refitted hc hfills (recordedMutation_eq_ok.mp h.mutation).2 (shape.map_emptied_layout m)

namespace Workspace

def Conforming (shapes : ShapeRegistry) (b : Block) : Prop :=
  ∃ shape, shapes.get? b.type = some shape ∧ b.Conforms shape

/-- The block conforms, and is one of the given shape if it has the given id. -/
private def Assigned (shapes : ShapeRegistry) (id : BlockId) (shape : Shape) (b : Block) : Prop :=
  Conforming shapes b ∧ (b.id = id → shapes.get? b.type = some shape)

theorem Conforming.congr (h : Conforming shapes b) (hb : b'.bare = b.bare) :
    Conforming shapes b' := by
  obtain ⟨shape, hshape, hconforms⟩ := h
  have htype : b'.bare.type = b.bare.type := congrArg Block.type hb
  change b'.type = b.type at htype
  exact ⟨shape, htype ▸ hshape, hconforms.congr hb⟩

/-- Whether blocks conform to their shapes is not about links, and still holds where some blocks are
gone. -/
theorem hereditary_conforming : Hereditary (Bears shapes (Conforming shapes)) :=
  hereditary_bears fun _ _ hb h => h.congr hb

private theorem hereditary_assigned : Hereditary (Bears shapes (Assigned shapes id shape)) := by
  refine hereditary_bears fun b b' hb h => ⟨h.1.congr hb, fun hid => ?_⟩
  have hid' : b'.bare.id = b.bare.id := congrArg Block.id hb
  have htype : b'.bare.type = b.bare.type := congrArg Block.type hb
  change b'.id = b.id at hid'
  change b'.type = b.type at htype
  rw [htype]
  exact h.2 (hid'.symm.trans hid)

private theorem Bears.assigned (h : Bears shapes (Conforming shapes) w) (hn : w.ids.Nodup)
    (hb : w.find? id = some b) (hshape : w.shapes.get? b.type = some shape) :
    Bears shapes (Assigned shapes id shape) w := by
  refine ⟨h.shapes, fun d hd => ⟨h.blocks d hd, fun hid => ?_⟩⟩
  have hfind := find?_of_mem hn hd
  rw [hid, hb] at hfind
  cases hfind
  rwa [h.shapes] at hshape

private theorem Bears.conforming (h : Bears shapes (Assigned shapes id shape) w) :
    Bears shapes (Conforming shapes) w :=
  ⟨h.shapes, fun b hb => (h.blocks b hb).1⟩

private theorem Bears.modify (h : Bears shapes (Assigned shapes id shape) w) {f : Block → Block}
    (htype : ∀ b, (f b).type = b.type) (hf : ∀ b, b.Conforms shape → (f b).Conforms shape) :
    Bears shapes (Assigned shapes id shape) (w.modify id f) := by
  refine ⟨h.shapes, fun b hb => ?_⟩
  obtain ⟨d, hd, rfl⟩ := List.mem_map.mp hb
  obtain ⟨⟨s, hs, hconforms⟩, hid⟩ := h.blocks d hd
  split
  · rename_i he
    have hshape := hid he
    obtain rfl : s = shape := Option.some.inj (hs.symm.trans hshape)
    exact ⟨⟨s, by rwa [htype], hf d hconforms⟩, fun _ => by rwa [htype]⟩
  · exact ⟨⟨s, hs, hconforms⟩, hid⟩

section edits

variable (hc : ∀ shape ∈ shapes.shapes, shape.Consistent)
include hc

private theorem conforming_add {type : String} {shadow : Bool} :
    (add id type shadow).Keeps (Bears shapes (Conforming shapes)) := by
  intro w h
  unfold add
  rw [ensures_bind, ensures_get]
  dsimp only
  split
  · exact h
  cases hshape : w.shapes.get? type with
  | none => exact h
  | some shape =>
    rw [h.shapes] at hshape
    refine ⟨h.shapes, fun b hb => ?_⟩
    obtain hb | rfl : b ∈ w.blocks ∨ b = freshBlock shape id type shadow := by simpa using hb
    · exact h.blocks b hb
    · exact ⟨shape, hshape, .fresh (hc shape (ShapeRegistry.mem_of_get? hshape).1) id type shadow⟩

private theorem Bears.refitted (h : Bears shapes (Assigned shapes id shape) w)
    (hshape : shapes.get? b.type = some shape) (ha : shape.accepts m) (sockets : List Socket)
    (hs : sockets.map Socket.emptied = shape.layout m) :
    Bears shapes (Assigned shapes id shape) (w.modify id fun b => { b with
      sockets
      connectors := shape.connectorsOf m
      fields := showMutation shape m b.fields
      mutation := m }) :=
  h.modify (fun _ => rfl) fun _ hb =>
    .refitted (hc shape (ShapeRegistry.mem_of_get? hshape).1) hb.fields ha hs

private theorem ensures_conforming_applyEvent (hn : w.ids.Nodup)
    (h : Bears shapes (Conforming shapes) w) : (applyEvent id event).Ensures w
      (fun _ => Bears shapes (Conforming shapes)) fun _ => Bears shapes (Conforming shapes) := by
  refine ensures_applyEvent (fun _ => h) (fun _ _ _ _ => h) (fun _ _ _ _ _ _ => h)
    fun b shape m diff hb hshape ht => ?_
  obtain ⟨-, hrequested, hfew, -⟩ := Shape.transition_eq_ok.mp ht
  have ha := Shape.accepts_of_requested hrequested hfew
  have hkeeps : (applyDiff id shape m diff).Keeps (Bears shapes (Assigned shapes id shape)) :=
    hereditary_assigned.applyDiff fun _ sockets hs h' =>
      h'.refitted hc (h.shapes ▸ hshape) ha sockets hs
  exact (hkeeps w (h.assigned hn hb hshape)).mono (fun _ _ h' => h'.conforming)
    fun _ _ h' => h'.conforming

/-- A field that shows the mutation is not set as such: it reshapes the block. -/
theorem ensures_conforming_setField (hn : w.ids.Nodup)
    (h : Bears shapes (Conforming shapes) w) {name : String} {value : FieldValue} :
    (setField id name value).Ensures w
      (fun _ => Bears shapes (Conforming shapes)) fun _ => Bears shapes (Conforming shapes) := by
  refine ensures_setField (fun _ _ _ _ _ _ => ensures_conforming_applyEvent hc hn h)
    (fun b shape hb hshape hv hplain => ?_) fun _ => h
  exact ((h.assigned hn hb hshape).modify (f := fun b => { b with fields := b.fields.insert name value })
    (fun _ => rfl) fun _ hd => hd.insert hv hplain).conforming

private theorem ensures_conforming_compose (hn : w.ids.Nodup)
    (h : Bears shapes (Conforming shapes) w) {s : Satellite} : (compose s).Ensures w
      (fun _ => Bears shapes (Conforming shapes)) fun _ => Bears shapes (Conforming shapes) := by
  unfold compose
  rw [ensures_bind, ensures_refusedAs, ensures_require]
  cases hb : w.find? s.owner with
  | none => exact h
  | some b =>
    dsimp only
    rw [ensures_bind, ensures_refusedAs, ensures_requireShape]
    cases hshape : w.shapes.get? b.type with
    | none => exact h
    | some shape =>
      dsimp only
      split
      · exact h
      rw [ensures_bind, ensures_ofResult]
      cases ht : shape.transition b.mutation (.compose s.kinds) with
      | error e => exact h
      | ok result =>
        obtain ⟨m, diff⟩ := result
        obtain ⟨-, hrequested, hfew, -⟩ := Shape.transition_eq_ok.mp ht
        have ha := Shape.accepts_of_requested hrequested hfew
        have hkeeps (plan : List (String × BlockId)) : (replant s.owner shape m plan).Keeps
            (Bears shapes (Assigned shapes s.owner shape)) :=
          hereditary_assigned.replant fun _ sockets hs h' =>
            h'.refitted hc (h.shapes ▸ hshape) ha sockets hs
        dsimp only
        rw [ensures_bind, ensures_get, ensures_bind, ensures_refusedAs]
        exact (hkeeps _ w (h.assigned hn hb hshape)).mono (fun _ _ h' => h'.conforming)
          fun _ _ h' => h'.conforming

/-- Documents give conforming blocks, whatever they say. -/
theorem conforming_of_restore {d : Document} (h : d.restore shapes = .ok w) :
    Bears shapes (Conforming shapes) w := by
  refine hereditary_conforming.restored h (fun w r shape m h' _ hr => ?_) ⟨rfl, by simp [Workspace.empty]⟩
  refine ⟨h'.shapes, fun b hb => ?_⟩
  obtain hb | rfl : b ∈ w.blocks ∨ b = r.block shape m := by simpa [added] using hb
  · exact h'.blocks b hb
  · have hshape := hr.known
    rw [h'.shapes] at hshape
    exact ⟨shape, hshape, hr.conforms (hc shape (ShapeRegistry.mem_of_get? hshape).1)⟩

private theorem Bears.apply (hn : w.ids.Nodup) (h : Bears shapes (Conforming shapes) w) (a : Action) :
    Bears shapes (Conforming shapes) (a.apply w) := by
  have hlinks : Hereditary (Bears shapes (Conforming shapes)) := hereditary_conforming
  cases a with
  | add => exact (conforming_add hc).perform h
  | delete => exact hlinks.delete.perform h
  | setField => exact (ensures_conforming_setField hc hn h).after
  | connectValue => exact hlinks.connectValue.perform h
  | connectStatement => exact hlinks.connectStatement.perform h
  | connectNext => exact hlinks.connectNext.perform h
  | disconnect => exact hlinks.detach.perform h
  | unplug => exact hlinks.unplug.perform h
  | reshape => exact (ensures_conforming_applyEvent hc hn h).after
  | setVariant => exact (ensures_conforming_applyEvent hc hn h).after
  | load text =>
    have hload : (load text).Keeps (Bears shapes (Conforming shapes)) :=
      keeps_loaded fun w w' d h ho => conforming_of_restore hc (h.shapes ▸ ho)
    exact hload.perform h

/-- In every workspace that is reached, each block conforms to its shape. -/
theorem Reached.conforming (h : Reached shapes w) : Bears shapes (Conforming shapes) w := by
  induction h with
  | empty => exact ⟨rfl, by simp [Workspace.empty]⟩
  | restored h => exact conforming_of_restore hc h
  | act h a ih => exact ih.apply hc h.nodup a
  | compose h s ih => exact (ensures_conforming_compose hc h.nodup ih).after

/-- Whatever has led to a workspace, all parts of its blocks agree with their mutations. -/
theorem conforms_of_reached (h : Reached shapes w) : ∀ b ∈ w.blocks,
    ∃ shape, shapes.get? b.type = some shape ∧ b.Conforms shape :=
  (h.conforming hc).blocks

end edits

/-- An array gets three dimensions by its count field; a satellite from before takes it back to one. -/
theorem conforms_of_reached_of_stale_units :
    let zeros : BlockId := ⟨"zeros"⟩
    let w := [Action.add zeros "ndarray_zeros" false,
      .setField zeros "DIMS" (.number (.ofNat 3))].foldl Action.apply (.empty Python.standard.shapes)
    let s : Satellite := ⟨zeros, "ndarray_zeros", [⟨"ndarray_zeros_dim", none⟩],
      [⟨0, "ndarray_zeros_dim", [none]⟩], 1⟩
    let w' := ((Workspace.compose s).perform w).2
    (∀ shape ∈ Python.standard.shapes.shapes, shape.Consistent) ∧
      Reached Python.standard.shapes w' ∧
      w.blocks.map (·.mutation) = [.items 3] ∧ w'.blocks.map (·.mutation) = [.items 1] ∧
      ∀ b ∈ w'.blocks,
        ∃ shape, Python.standard.shapes.get? b.type = some shape ∧ b.Conforms shape := by
  intro zeros w s w'
  have hw : Reached Python.standard.shapes w := (Edited.empty.run _).reached
  have hw' := hw.compose s
  exact ⟨Python.standard_declared.consistent, hw', by decide +kernel, by decide +kernel,
    conforms_of_reached Python.standard_declared.consistent hw'⟩

end Workspace

end BlockProgram
