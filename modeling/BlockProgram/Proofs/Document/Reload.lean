import BlockProgram.Proofs.Document.RoundTrip
import BlockProgram.Proofs.Document.Text

/-! What is saved is loaded again exactly if its numbers are finite. Any number may be put in a field, but a
NaN or an infinity is written as `null`, and `null` is not read as a number. -/
namespace BlockProgram

variable {shape : Shape} {fields : Fields}

private theorem allows_reread {f : FieldSpec} (v : FieldValue) : f.allows v.reread = f.allows v := by
  cases v with
  | number x =>
    have hnumber : (FieldValue.number x).reread = .number ((Json.reread? x).getD x) := by
      change ((Json.reread? x).map FieldValue.number).getD (.number x) = _
      cases Json.reread? x <;> rfl
    rw [hnumber]
    unfold FieldSpec.allows
    cases f.default <;> rfl
  | _ => rfl

private theorem Shape.Fills.reread (h : shape.Fills fields) :
    shape.Fills (fields.mapValues (·.reread)) := by
  intro name
  have hrel := h name
  rw [Fields.get?_mapValues]
  generalize fields.get? name = value at hrel ⊢
  generalize shape.fieldSpec? name = f at hrel ⊢
  cases hrel with
  | none => exact .none
  | some hv => exact .some ((allows_reread _).trans hv)

namespace Workspace

variable {shapes : ShapeRegistry} {w w' : Workspace}

/-- The fields of a block with every number as it is read back. The one that counts its units is shown
anew. -/
def rereadFields (shapes : ShapeRegistry) (b : Block) : Fields :=
  match shapes.get? b.type with
  | some shape => showMutation shape b.mutation (b.fields.mapValues (·.reread))
  | none => b.fields

/-- A workspace with every number as it is read back. -/
def reread (w : Workspace) : Workspace := w.refield (rereadFields w.shapes)

private theorem rereadFields_eq {b : Block} (hshape : shapes.get? b.type = some shape) :
    rereadFields shapes b = showMutation shape b.mutation (b.fields.mapValues (·.reread)) := by
  unfold rereadFields
  rw [hshape]

/-- The numbers that are read tell of the workspace that has them. -/
theorem restore_reread (hd : w.shapes.Declared) (hs : Sound True True w)
    (hv : ∀ b ∈ w.blocks, Valid w.shapes b) : w.document.reread.restore w.shapes = .ok w.reread := by
  have hvalid : ∀ b ∈ w.reread.blocks, Valid w.shapes b := by
    intro b' hb'
    obtain ⟨b, hb, rfl⟩ := List.mem_map.mp hb'
    obtain ⟨shape, hshape, haccepts, hfills, -⟩ := hv b hb
    have hconsistent := hd.consistent shape (ShapeRegistry.mem_of_get? hshape).1
    refine ⟨shape, hshape, haccepts, ?_⟩
    dsimp only
    rw [rereadFields_eq hshape]
    exact ⟨hconsistent.fills_showMutation haccepts hfills.reread,
      Shape.shows_showMutation shape b.mutation _⟩
  have htells : List.Forall₂ (Tells w.shapes) w.document.reread.blocks w.reread.blocks := by
    refine List.forall₂_map_left_iff.mpr (List.forall₂_map_left_iff.mpr
      (List.forall₂_map_right_iff.mpr (List.forall₂_same.mpr fun b hb => ?_)))
    obtain ⟨shape, hshape, -, hfills, -⟩ := hv b hb
    exact ⟨shape, b.fields.mapValues (·.reread), hshape, rfl, hfills.reread, rereadFields_eq hshape⟩
  have hdocument : { w.reread.document with blocks := w.document.reread.blocks } = w.document.reread := by
    unfold Document.reread document reread refield
    rw [List.flatMap_map]
    rfl
  rw [← hdocument]
  exact (hs.refielded (rereadFields w.shapes)).restored_of_tells hd hvalid htells

/-- A workspace is loaded from its text exactly if no number in it is a NaN or an infinity, and then all
but its numbers is as it was. -/
theorem reloads_iff (hd : shapes.Declared) (h : Attained shapes w) :
    ofJson shapes w.toJson = .ok w' ↔ (∀ b ∈ w.blocks, b.fields.Finite) ∧ w' = w.reread := by
  have hbears := h.valid hd
  have hrestore : w.document.reread.restore shapes = .ok w.reread := by
    obtain rfl := hbears.shapes
    exact restore_reread hd (h.sound hd) hbears.blocks
  have hversion : w.document.version < Nat.pow 2 32 := show Document.currentVersion < _ by decide
  have hread (d : Document) :
      Document.ofJson w.document.toJson = .ok d ↔ w.document.Finite ∧ d = w.document.reread :=
    Document.ofJson_toJson_eq_ok hversion
  have hfinite : w.document.Finite ↔ ∀ b ∈ w.blocks, b.fields.Finite := List.forall_mem_map
  rw [← hfinite]
  unfold ofJson toJson
  constructor
  · intro hok
    split at hok
    · rename_i d hd
      obtain ⟨hf, rfl⟩ := (hread _).mp hd
      exact ⟨hf, (Except.ok.inj (hrestore.symm.trans hok)).symm⟩
    · cases hok
  · rintro ⟨hf, rfl⟩
    rw [(hread _).mpr ⟨hf, rfl⟩]
    exact hrestore

/-- The largest number there is comes back. -/
theorem reloads_iff_of_largest :
    let w := [Action.add ⟨"#1"⟩ "math_number" false,
      .setField ⟨"#1"⟩ "NUM" (.number ⟨0x7fefffffffffffff⟩)].foldl Action.apply
        (.empty Python.standard.shapes)
    Python.standard.shapes.Declared ∧ Attained Python.standard.shapes w ∧
      (∀ b ∈ w.blocks, b.fields.Finite) ∧ ofJson Python.standard.shapes w.toJson = .ok w.reread := by
  intro w
  have hw : Attained Python.standard.shapes w := .inl (Edited.empty.run _)
  have hfinite : ∀ b ∈ w.blocks, b.fields.Finite := by decide +kernel
  exact ⟨Python.standard_declared, hw, hfinite,
    (reloads_iff Python.standard_declared hw).mpr ⟨hfinite, rfl⟩⟩

/-- Infinity is saved, and the document with it is not loaded. -/
theorem infinity_not_reloaded :
    let w := [Action.add ⟨"#1"⟩ "math_number" false,
      .setField ⟨"#1"⟩ "NUM" (.number ⟨0x7ff0000000000000⟩)].foldl Action.apply
        (.empty Python.standard.shapes)
    Edited Python.standard.shapes w ∧ ofJson Python.standard.shapes w.toJson =
      .error (.malformed ⟨.invalidType .null "f64", ⟨9, 24⟩⟩) := by
  intro w
  -- the characters are read as they are: going through the bytes of the text takes longer
  have hread : Document.ofJson w.toJson = .error ⟨.invalidType .null "f64", ⟨9, 24⟩⟩ := by
    rw [Workspace.toJson, Document.ofJson_toJson_eq]
    decide +kernel
  exact ⟨Edited.empty.run _, by rw [ofJson, hread]⟩

end Workspace

end BlockProgram
