import BlockProgram.Proofs.Workspace.Conform

/-! Edits and documents lead only to blocks that are valid for their shapes: the mutation is one that the
shape accepts, the fields hold what they may hold, and the count or the variant that they show is that of
the mutation. -/
namespace BlockProgram

theorem ShapeRegistry.Declared.regular {registry : ShapeRegistry} (h : registry.Declared) :
    registry.Regular True :=
  ⟨fun shape hs m => (h.shapes shape hs).regular m, fun hr => absurd trivial hr⟩

namespace Workspace

/-- The fields and the mutation of a block are such as its shape has. -/
def Valid (shapes : ShapeRegistry) (b : Block) : Prop :=
  ∃ shape, shapes.get? b.type = some shape ∧ shape.accepts b.mutation ∧ shape.Fills b.fields ∧
    shape.Shows b.mutation b.fields

variable {w : Workspace} {shapes : ShapeRegistry}

theorem Reached.valid (hd : shapes.Declared) (h : Reached shapes w) :
    Bears shapes (Valid shapes) w := by
  refine ⟨h.shapes_eq, fun b hb => ?_⟩
  obtain ⟨shape, hshape, hconforms⟩ := (h.conforming hd.consistent).blocks b hb
  exact ⟨shape, hshape, hconforms.accepted, hconforms.fields, hconforms.shown⟩

/-- Edits lead to valid blocks, whatever they are and in whatever order. -/
theorem Edited.valid (hd : shapes.Declared) (h : Edited shapes w) :
    Bears shapes (Valid shapes) w := h.reached.valid hd

/-- The workspaces that edits lead to or that a document restores. -/
def Attained (shapes : ShapeRegistry) (w : Workspace) : Prop :=
  Edited shapes w ∨ ∃ d : Document, d.restore shapes = .ok w

theorem Attained.reached (h : Attained shapes w) : Reached shapes w := by
  obtain h | ⟨d, h⟩ := h
  · exact h.reached
  · exact .restored h

/-- Every workspace that is attained is sound. -/
theorem Attained.sound (hd : shapes.Declared) (h : Attained shapes w) : Sound True True w := by
  obtain h | ⟨d, h⟩ := h
  · exact h.sound hd.distinct fun _ => hd.regular
  · exact sound_of_restore hd.distinct (fun _ => hd.regular) h

/-- In every workspace that is attained, the fields and mutations are such as the shapes have. -/
theorem Attained.valid (hd : shapes.Declared) (h : Attained shapes w) :
    Bears shapes (Valid shapes) w := h.reached.valid hd

end Workspace

end BlockProgram
