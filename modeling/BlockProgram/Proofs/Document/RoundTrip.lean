import BlockProgram.Proofs.Document.Listed
import BlockProgram.Proofs.Workspace.Valid

/-! The document of a workspace restores that workspace. The records give its blocks without their links, and
then every connection is one that can be made. -/
namespace BlockProgram.Workspace

open Edit

variable {rooted typed : Prop} {w w' : Workspace} {shapes : ShapeRegistry} {x : BlockId} {b : Block}
  {shape : Shape} {links : List Connection} {link : Connection}

/-- A token is read back; the empty one is that of the only mutation of its shape. -/
theorem recordedMutation_record (hdecl : shape.Declared) (ha : shape.accepts b.mutation) :
    recordedMutation shape b.record = .ok b.mutation := by
  have hread := Mutation.ofToken?_token (hdecl.tokenable ha)
  refine recordedMutation_eq_ok.mpr ⟨?_, ha⟩
  change (if b.mutation.token = "" then _ else Mutation.ofToken? b.mutation.token) = _
  split
  · rename_i hempty
    have hfixed : b.mutation = .fixed := by
      rw [hempty] at hread
      exact (Option.some.inj hread).symm
    rw [hfixed] at ha ⊢
    cases hmut : shape.mutator <;> simp [Shape.accepts, Shape.initial, hmut] at ha ⊢
  · exact hread

/-- A record tells of a block all but what it shows of its mutation, which is shown anew when the block
is restored. -/
def Tells (shapes : ShapeRegistry) (r : BlockRecord) (b : Block) : Prop :=
  ∃ shape fields, shapes.get? b.type = some shape ∧ r = { b.record with fields } ∧
    shape.Fills fields ∧ b.fields = showMutation shape b.mutation fields

private theorem tells_record (hv : Valid shapes b) : Tells shapes b.record b := by
  obtain ⟨shape, hshape, -, hf, hshows⟩ := hv
  exact ⟨shape, b.fields, hshape, rfl, hf, hshows.showMutation.symm⟩

private theorem reads_of_tells {r : BlockRecord} (hd : shapes.Declared) (hv : Valid shapes b)
    (hs : Shaped shapes b.bare) (hr : Tells shapes r b) :
    ∃ shape m, r.Reads shapes shape m ∧ b.bare = r.block shape m := by
  obtain ⟨shape, hshape, ha, -, -⟩ := hv
  obtain ⟨shape', hshape', hsockets, hconnectors⟩ := hs
  obtain rfl : shape = shape' := Option.some.inj (hshape.symm.trans hshape')
  obtain ⟨shape', fields, hshape', rfl, hf, hfields⟩ := hr
  obtain rfl : shape = shape' := Option.some.inj (hshape.symm.trans hshape')
  have hdecl := hd.shapes shape (ShapeRegistry.mem_of_get? hshape).1
  refine ⟨shape, b.mutation, ⟨hshape, fun entry he => ?_, recordedMutation_record hdecl ha⟩, ?_⟩
  · exact checkField_eq_ok.mpr (hf.exists_spec (Fields.mem_entries.mp he))
  · have htold : fields.entries.foldl (fun fields e => fields.insert e.1 e.2) shape.defaults = fields :=
      Fields.ext_get? fun x => Fields.get?_foldl_entries.trans (hf.get?_or hdecl.consistent.fills_defaults)
    have hsockets : shape.layout b.mutation = b.bare.sockets := hsockets.symm
    have hconnectors : shape.connectorsOf b.mutation = b.connectors := hconnectors.symm
    simp only [BlockRecord.block, Block.reshaped, freshBlock, htold, hsockets, hconnectors, ← hfields]
    rfl

/-- The workspace without its links. -/
private def unlinked (w : Workspace) : Workspace := { w with blocks := w.blocks.map Block.bare }

private theorem find?_unlinked : w.unlinked.find? x = w.bare? x := by
  unfold find? bare? find? unlinked
  rw [List.find?_map]
  rfl

private theorem ids_unlinked : w.unlinked.ids = w.ids := by
  unfold ids unlinked
  rw [List.map_map]
  rfl

private theorem bare?_unlinked : w.unlinked.bare? x = w.bare? x := by
  rw [bare?, find?_unlinked, bare?, Option.map_map]
  congr 1
  funext b
  simp [Block.bare]

private theorem bare_of_mem_unlinked : ∀ b ∈ w.unlinked.blocks, b.bare = b := by
  intro b hb
  obtain ⟨d, -, rfl⟩ := List.mem_map.mp hb
  simp [Block.bare]

private theorem Linked.unlinked (h : w.Linked) : w.unlinked.Linked := by
  refine linked_of_bare bare_of_mem_unlinked ?_ fun b hb => ?_
  · rw [ids_unlinked]
    exact h.nodup
  obtain ⟨d, hd, rfl⟩ := List.mem_map.mp hb
  exact h.names d.id d.bare (bare?_of_find? (find?_of_mem h.nodup hd))

private theorem Sound.takes_records {records : List BlockRecord} (h : Sound rooted typed w)
    (hd : w.shapes.Declared) (hv : ∀ b ∈ w.blocks, Valid w.shapes b)
    (hr : List.Forall₂ (Tells w.shapes) records w.blocks) :
    (empty w.shapes).Takes records (w.blocks.map Block.bare) where
  fresh r _ := by simp [has, find?, empty]
  nodup := by
    have hids : records.map (·.id) = w.ids := by
      refine List.forall₂_eq_eq_eq ▸ List.forall₂_map_left_iff.mpr (List.forall₂_map_right_iff.mpr ?_)
      refine hr.imp fun r b htells => ?_
      obtain ⟨_, _, -, rfl, -⟩ := htells
      rfl
    rw [hids]
    exact h.linked.nodup
  read := by
    refine List.forall₂_map_right_iff.mpr (List.forall₂_iff_get.mpr ⟨hr.length_eq, fun i hi hi' => ?_⟩)
    have hb := List.get_mem w.blocks ⟨i, hi'⟩
    have hbare : w.bare? (w.blocks.get ⟨i, hi'⟩).id = some (w.blocks.get ⟨i, hi'⟩).bare :=
      Option.map_eq_some_iff.mpr ⟨_, find?_of_mem h.linked.nodup hb, rfl⟩
    exact reads_of_tells hd (hv _ hb) (h.shaped _ _ hbare) (hr.get hi hi')

/-- As long as no link leads where `w` has none, the links of `w` that are missing can be made. -/
theorem Sound.joinable (h : Sound True True w) (hl : w'.Linked) (hp : Pruned w w')
    (hbare : ∀ x, w'.bare? x = w.bare? x) (hn : links.Nodup)
    (hlinks : ∀ link ∈ links, w.parent? link.child = some link.place ∧
      w'.parent? link.child = none) : w'.Joinable links := by
  induction links generalizing w' with
  | nil => trivial
  | cons link rest ih =>
    obtain ⟨hparent, hfree⟩ := hlinks link List.mem_cons_self
    have ha : w'.Admits link :=
      { free := hfree
        vacant := hp.vacated h.linked hl ((h.linked.link _ _).mpr hparent) hfree
        rooted := fun hu => (h.acyclic trivial).not_under hparent (hp.under hu)
        fits := (h.fits _ _ hparent).congr (hbare _) (hbare _)
        follows := fun p hnext => by
          rw [hbare]
          exact h.follows p link.child (hparent.trans (congrArg some hnext)) }
    refine ⟨ha, ih (ha.linked hl) ⟨by simpa using hp.shapes, fun x b hb => hp.bare x b (by simpa using hb),
      fun x place hx => ?_⟩ (by simpa using hbare) (List.nodup_cons.mp hn).2 fun other ho => ?_⟩
    · rw [parent?_attached ha.has_child] at hx
      split at hx
      · rename_i he
        rw [he, hparent, hx]
      · exact hp.parent x place hx
    · obtain ⟨hother, hofree⟩ := hlinks other (List.mem_cons_of_mem _ ho)
      refine ⟨hother, ?_⟩
      rw [parent?_attached ha.has_child, if_neg]
      · exact hofree
      · intro he
        have hplace := Option.some.inj ((he ▸ hother).symm.trans hparent)
        exact (List.nodup_cons.mp hn).1 (Connection.ext hplace he ▸ ho)

private theorem joined_unlinked (h : w.Linked) (hj : w.unlinked.Joinable w.document.connections) :
    w.unlinked.joined w.document.connections = w := by
  refine h.ext (hj.linked h.unlinked) (by simp [unlinked]) (by simp [ids_unlinked])
    (by simp [bare?_unlinked]) fun x => Option.ext fun place => ?_
  rw [hj.parent?_joined, parent?_of_bare bare_of_mem_unlinked]
  simp only [reduceCtorEq, false_or]
  constructor
  · rintro ⟨link, hlink, rfl, rfl⟩
    exact h.mem_connections.mp hlink
  · intro hp
    cases place with
    | input p s => exact ⟨.input p s x, h.mem_connections.mpr hp, rfl, rfl⟩
    | next p => exact ⟨.next p x, h.mem_connections.mpr hp, rfl, rfl⟩

/-- A workspace whose blocks are valid is restored from any document that tells of its blocks and has its
connections. -/
theorem Sound.restored_of_tells {records : List BlockRecord} (h : Sound True True w)
    (hd : w.shapes.Declared) (hv : ∀ b ∈ w.blocks, Valid w.shapes b)
    (hr : List.Forall₂ (Tells w.shapes) records w.blocks) :
    { w.document with blocks := records }.restore w.shapes = .ok w := by
  have hj : w.unlinked.Joinable w.document.connections := by
    refine h.joinable h.linked.unlinked ⟨rfl, fun x b hb => bare?_unlinked ▸ hb, fun x place hp => ?_⟩
      (fun _ => bare?_unlinked) h.linked.nodup_connections fun link hlink => ?_
    · simp [parent?_of_bare bare_of_mem_unlinked] at hp
    · exact ⟨h.linked.mem_connections.mp hlink, parent?_of_bare bare_of_mem_unlinked⟩
  exact (restore_eq_ok hd.distinct).mpr
    ⟨rfl, w.blocks.map Block.bare, h.takes_records hd hv hr, hj, (joined_unlinked h.linked hj).symm⟩

/-- A workspace whose blocks are valid is restored from its document. -/
theorem Sound.restored (h : Sound True True w) (hd : w.shapes.Declared)
    (hv : ∀ b ∈ w.blocks, Valid w.shapes b) : w.document.restore w.shapes = .ok w :=
  h.restored_of_tells hd hv
    (List.forall₂_map_left_iff.mpr (List.forall₂_same.mpr fun b hb => tells_record (hv b hb)))

/-- A document restores the workspace that it was made from, whatever edits have led there. -/
theorem restore_document {shapes : ShapeRegistry} {w : Workspace} (hd : shapes.Declared)
    (h : Edited shapes w) : w.document.restore shapes = .ok w := by
  have hv := h.valid hd
  have hs : Sound True True w := h.sound hd.distinct fun _ => hd.regular
  have hr := hv.shapes ▸ hs.restored (hv.shapes ▸ hd) (hv.shapes ▸ hv.blocks)
  exact hr

/-- A program prints a list; the list is reshaped, and the loop before the print is unplugged. -/
theorem restore_document_of_reshaped :
    let w := [Action.add ⟨"main"⟩ "program_main" false, .add ⟨"loop"⟩ "controls_repeat_ext" false,
      .connectStatement ⟨"main"⟩ "DO" ⟨"loop"⟩, .add ⟨"print"⟩ "text_print" false,
      .connectNext ⟨"loop"⟩ ⟨"print"⟩, .add ⟨"list"⟩ "lists_create_with" false,
      .connectValue ⟨"print"⟩ "TEXT" ⟨"list"⟩, .reshape ⟨"list"⟩ 1,
      .unplug ⟨"loop"⟩ true].foldl Action.apply (.empty Python.standard.shapes)
    Python.standard.shapes.Declared ∧ Edited Python.standard.shapes w ∧
      w.document.connections = [.input ⟨"main"⟩ "DO" ⟨"print"⟩, .input ⟨"print"⟩ "TEXT" ⟨"list"⟩] ∧
      w.document.restore Python.standard.shapes = .ok w := by
  intro w
  have hw : Edited Python.standard.shapes w := Edited.empty.run _
  exact ⟨Python.standard_declared, hw, by decide +kernel,
    restore_document Python.standard_declared hw⟩

end BlockProgram.Workspace
