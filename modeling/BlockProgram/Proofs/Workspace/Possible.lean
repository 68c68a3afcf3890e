import BlockProgram.Proofs.Python.Vocabulary
import BlockProgram.Proofs.Workspace.Desk
import BlockProgram.Proofs.Workspace.Valid

/-! The workspaces that there can be: edited while satellites are open, or restored from a document. Stale
satellites may have put blocks where they do not fit, and may have closed circles. -/
namespace BlockProgram

open Workspace

variable {w : Workspace} {shapes : ShapeRegistry}

namespace Workspace

/-- The workspaces that edits lead to, also with satellites that are open, or that a document restores. -/
def Possible (shapes : ShapeRegistry) (w : Workspace) : Prop :=
  (∃ steps, (Desk.run shapes steps).workspace = w) ∨ ∃ d : Document, d.restore shapes = .ok w

theorem Possible.reached (h : Possible shapes w) : Reached shapes w := by
  obtain ⟨steps, rfl⟩ | ⟨d, h⟩ := h
  · exact Desk.reached_run steps
  · exact .restored h

theorem Possible.sound (h : Possible Python.standard.shapes w) : Sound False False w :=
  h.reached.sound

theorem Possible.valid (h : Possible Python.standard.shapes w) :
    Bears Python.standard.shapes (Valid Python.standard.shapes) w :=
  h.reached.valid Python.standard_declared

/-- Every value socket takes what it holds: an expression, of a type that the socket accepts. -/
def ValuesFit (w : Workspace) : Prop :=
  ∀ b ∈ w.blocks, ∀ k ∈ b.sockets, k.kind = .value → ∀ c ∈ k.target, ∀ d ∈ w.find? c,
    k.takes d.connectors

instance (w : Workspace) : Decidable w.ValuesFit := by
  unfold ValuesFit
  infer_instance

end Workspace

end BlockProgram
