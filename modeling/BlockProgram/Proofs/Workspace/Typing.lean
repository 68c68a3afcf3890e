import BlockProgram.Proofs.Shape.Declared
import BlockProgram.Proofs.Workspace.Desk

/-! Only connecting checks connectors and types. Healing, splicing, reshaping and composing put blocks into
places without a check, and into none where they would not fit. -/
namespace BlockProgram

/-- No block of the shape is both an expression and a part of a chain. -/
def Shape.Unmixed (shape : Shape) : Prop :=
  ∀ c ∈ shape.forms, c.output → c.previous = false ∧ c.next = false

namespace Workspace

/-- Blocks are only where their connectors and the sockets allow. -/
structure Fitted (w : Workspace) : Prop where
  value : ∀ b ∈ w.blocks, ∀ s ∈ b.sockets, s.kind = .value → ∀ c ∈ s.target,
    ∃ d ∈ w.blocks, d.id = c ∧ d.connectors.output ∧ typesFit s.accepts d.connectors.types
  statement : ∀ b ∈ w.blocks, ∀ s ∈ b.sockets, s.kind = .statement → ∀ c ∈ s.target,
    ∃ d ∈ w.blocks, d.id = c ∧ d.connectors.previous
  dummy : ∀ b ∈ w.blocks, ∀ s ∈ b.sockets, s.kind = .dummy → s.target = none
  next : ∀ b ∈ w.blocks, ∀ c ∈ b.next,
    b.connectors.next ∧ ∃ d ∈ w.blocks, d.id = c ∧ d.connectors.previous

variable {rooted : Prop} {w : Workspace} {shapes : ShapeRegistry}

private theorem takes_of_target (h : w.WellTyped) {b : Block} (hb : b ∈ w.blocks) {s : Socket}
    (hs : s ∈ b.sockets) {c : BlockId} (ht : c ∈ s.target) {kind : SocketKind}
    (hkind : s.kind = kind) :
    ∃ d ∈ w.blocks, d.id = c ∧ { s with kind }.takes d.connectors := by
  subst hkind
  exact h b hb s hs c ht

/-- In a sound workspace every block fits the place where it stands. -/
theorem Sound.fitted (h : Sound rooted True w) : w.Fitted := by
  have htyped := Desk.wellTyped_of_sound h
  refine ⟨fun b hb s hs hkind c ht => ?_, fun b hb s hs hkind c ht => ?_,
    fun b hb s hs hkind => ?_, fun b hb c hn => ?_⟩
  · obtain ⟨d, hd, hid, htakes⟩ := takes_of_target htyped hb hs ht hkind
    obtain ⟨hout, htypes⟩ := Bool.and_eq_true_iff.mp htakes
    exact ⟨d, hd, hid, hout, htypes⟩
  · exact takes_of_target htyped hb hs ht hkind
  · cases ht : s.target with
    | none => rfl
    | some c =>
      obtain ⟨d, -, -, htakes⟩ := takes_of_target htyped hb hs ht hkind
      cases htakes
  · have hfind := find?_of_mem h.linked.nodup hb
    have hp := (h.linked.link _ _).mp (occupant?_of_next hfind hn)
    obtain ⟨above, habove, hnext⟩ := h.follows _ _ hp
    obtain ⟨bare, hbare, hprevious⟩ := h.fits _ _ hp
    obtain ⟨d, hd, rfl⟩ := Option.map_eq_some_iff.mp hbare
    obtain rfl := eq_bare_of_find? hfind habove
    exact ⟨hnext, d, (mem_of_find? hd).1, (mem_of_find? hd).2, hprevious trivial⟩

/-- Edits lead to workspaces where every block fits its place, if no connectors join an output with a
previous or next connector. -/
theorem edited_fitted (hd : shapes.Distinct) (hu : ∀ shape ∈ shapes.shapes, shape.Unmixed)
    (h : Edited shapes w) : w.Fitted := by
  have hregular : shapes.Regular True :=
    ⟨fun shape hs m ho => (hu shape hs _ (shape.connectorsOf_mem_forms m) ho).2,
      fun hno => absurd trivial hno⟩
  exact (h.sound hd fun _ => hregular).fitted

/-- A printed list access becomes a statement, so it leaves its socket; then it comes in between the two
blocks of a chain. -/
theorem edited_fitted_of_removal :
    let w := [Action.add ⟨"get"⟩ "lists_get_index" false, .add ⟨"print"⟩ "text_print" false,
      .add ⟨"last"⟩ "text_print" false, .connectValue ⟨"print"⟩ "TEXT" ⟨"get"⟩,
      .connectNext ⟨"print"⟩ ⟨"last"⟩, .setVariant ⟨"get"⟩ "REMOVE",
      .connectNext ⟨"print"⟩ ⟨"get"⟩].foldl Action.apply (.empty Python.standard.shapes)
    Python.standard.shapes.Distinct ∧
      (∀ shape ∈ Python.standard.shapes.shapes, shape.Unmixed) ∧
      Edited Python.standard.shapes w ∧ w.Fitted ∧
      w.chain ⟨"print"⟩ = [⟨"print"⟩, ⟨"get"⟩, ⟨"last"⟩] := by
  intro w
  have hw : Edited Python.standard.shapes w := Edited.empty.run _
  have hunmixed : ∀ shape ∈ Python.standard.shapes.shapes, shape.Unmixed := fun shape hs =>
    (Python.standard_declared.shapes shape hs).expressions
  exact ⟨Python.standard_distinct, hunmixed, hw,
    edited_fitted Python.standard_distinct hunmixed hw, by decide +kernel⟩

end Workspace

end BlockProgram
