import BlockProgram.Proofs.Document.Connection
import BlockProgram.Proofs.Document.Record
import BlockProgram.Proofs.Python.Vocabulary

/-! A document that is accepted is what its workspace looks like: the records are the blocks and the
connections are the links. Whether it is accepted and what it gives does not depend on the order of the
connections. -/
namespace BlockProgram

open Edit Workspace

/-- The records can be read and the connections made; that gives the workspace. -/
def Document.Builds (shapes : ShapeRegistry) (d : Document) (w : Workspace) : Prop :=
  ∃ blocks, (Workspace.empty shapes).Takes d.blocks blocks ∧
    Joinable ⟨shapes, blocks⟩ d.connections ∧ w = joined ⟨shapes, blocks⟩ d.connections

namespace Workspace

variable {w : Workspace} {shapes : ShapeRegistry} {d : Document} {b : Block} {blocks : List Block}
  {records : List BlockRecord} {links : List Connection} {x : BlockId}

private theorem Takes.of_mem (h : w.Takes records blocks) (hb : b ∈ blocks) :
    ∃ r shape m, BlockRecord.Reads w.shapes r shape m ∧ b = r.block shape m := by
  have hread := h.read
  clear h
  induction hread with
  | nil => simp at hb
  | @cons r _ _ _ hr _ ih =>
    rcases List.mem_cons.mp hb with rfl | hb
    · exact ⟨r, hr⟩
    · exact ih hb

theorem Takes.ids (h : w.Takes records blocks) : blocks.map (·.id) = records.map (·.id) := by
  have hids : List.Forall₂ (· = ·) (records.map (·.id)) (blocks.map (·.id)) := by
    refine List.forall₂_map_left_iff.mpr (List.forall₂_map_right_iff.mpr (h.read.imp ?_))
    rintro r _ ⟨shape, m, -, rfl⟩
    rfl
  rw [List.forall₂_eq_eq_eq] at hids
  exact hids.symm

/-- Restored blocks have no links yet, so that both ends agree. -/
theorem Takes.linked (h : (empty shapes).Takes records blocks) (hd : shapes.Distinct) :
    Linked ⟨shapes, blocks⟩ := by
  refine linked_of_bare (fun b hb => ?_) ?_ fun b hb => ?_
  · obtain ⟨r, shape, m, -, rfl⟩ := h.of_mem hb
    exact r.bare_block
  · change (blocks.map (·.id)).Nodup
    rw [h.ids]
    exact h.nodup
  · obtain ⟨r, shape, m, hr, rfl⟩ := h.of_mem hb
    exact hd shape (ShapeRegistry.mem_of_get? hr.known).1 m

private theorem ensures_restoreAll (hd : shapes.Distinct) : (restoreAll d).Ensures (.empty shapes)
    (fun _ w => d.Builds shapes w) fun _ _ => ∀ w, ¬ d.Builds shapes w := by
  unfold restoreAll
  rw [ensures_bind]
  refine ensures_restoreBlocks d.blocks (fun blocks ht => ?_) fun hno _ _ w ⟨blocks, ht, _⟩ =>
    hno blocks ht
  change (d.connections.forM restoreConnection).Ensures ⟨shapes, blocks⟩ _ _
  refine (ht.linked hd).ensures_restoreConnections (fun hj => ⟨blocks, ht, hj, rfl⟩)
    fun hno _ _ w ⟨blocks', ht', hj, _⟩ => hno ?_
  exact ht.unique ht' ▸ hj

/-- A document is accepted exactly if it builds a workspace, and then that is the answer. -/
theorem restore_eq_ok (hd : shapes.Distinct) :
    d.restore shapes = .ok w ↔ d.version = Document.currentVersion ∧ d.Builds shapes w := by
  have hall := ensures_restoreAll (d := d) hd
  unfold Ensures at hall
  unfold Document.restore
  by_cases hv : d.version = Document.currentVersion
  · rw [if_neg (not_not_intro hv)]
    split at hall
    · rename_i w' he
      rw [he]
      dsimp only
      constructor
      · intro h
        cases h
        exact ⟨hv, hall⟩
      · rintro ⟨-, blocks, ht, -, rfl⟩
        obtain ⟨blocks', ht', -, rfl⟩ := hall
        rw [ht.unique ht']
    · rename_i e w' he
      rw [he]
      exact ⟨nofun, fun h => (hall w h.2).elim⟩
  · rw [if_pos hv]
    exact ⟨nofun, fun h => (hv h.1).elim⟩

/-- The workspace of an accepted document has the blocks of its records in their order, and exactly the links
that it lists. -/
theorem restore_lists (hd : shapes.Distinct) (h : d.restore shapes = .ok w) :
    List.Forall₂ (fun r b => ∃ shape, shapes.get? r.type = some shape ∧ r.Describes shape b)
        d.blocks w.blocks ∧
      (∀ link, w.parent? link.child = some link.place ↔ link ∈ d.connections) ∧
      (∀ link, w.occupant? link.place = some link.child ↔ link ∈ d.connections) ∧
      w.document.connections.Perm d.connections := by
  obtain ⟨-, blocks, ht, hj, rfl⟩ := (restore_eq_ok hd).mp h
  have hl := hj.linked (ht.linked hd)
  have hparent (link : Connection) :
      (joined ⟨shapes, blocks⟩ d.connections).parent? link.child = some link.place ↔
        link ∈ d.connections := by
    have hfree : Workspace.parent? ⟨shapes, blocks⟩ link.child = none :=
      parent?_of_bare fun b hb => by
        obtain ⟨r, shape, m, -, rfl⟩ := ht.of_mem hb
        exact r.bare_block
    rw [hj.parent?_joined, hfree]
    constructor
    · rintro (hp | ⟨other, hother, hchild, hplace⟩)
      · cases hp
      · exact Connection.ext hplace hchild ▸ hother
    · exact fun hlink => .inr ⟨link, hlink, rfl, rfl⟩
  refine ⟨?_, hparent, fun link => (hl.link _ _).trans (hparent link), ?_⟩
  · have hbare : List.Forall₂ (fun r b => ∃ shape, shapes.get? r.type = some shape ∧
        BlockRecord.Describes shape r b) d.blocks (blocks.map Block.bare) := by
      refine List.forall₂_map_right_iff.mpr (ht.read.imp ?_)
      rintro r _ ⟨shape, m, hr, rfl⟩
      exact ⟨shape, hr.known, hr.describes.congr (by rw [r.bare_block, r.bare_block])⟩
    have hbares : (joined ⟨shapes, blocks⟩ d.connections).blocks.map Block.bare =
        blocks.map Block.bare := map_bare_joined
    rw [← hbares] at hbare
    refine (List.forall₂_map_right_iff.mp hbare).imp fun r b ⟨shape, hshape, hdescribes⟩ => ?_
    exact ⟨shape, hshape, hdescribes.congr (by simp [Block.bare])⟩
  · exact (List.perm_ext_iff_of_nodup hl.nodup_connections hj.nodup).mpr fun link =>
      hl.mem_connections.trans (hparent link)

/-- A text of two parts is printed; the inner block is listed first, and its connection last. -/
theorem restore_lists_of_printed :
    let d : Document :=
      { version := 1
        blocks := [{ id := ⟨"word"⟩, type := "text", shadow := true },
          { id := ⟨"join"⟩, type := "text_join", mutation := "items:1" },
          { id := ⟨"print"⟩, type := "text_print" }]
        connections := [.input ⟨"print"⟩ "TEXT" ⟨"join"⟩, .input ⟨"join"⟩ "ITEM0" ⟨"word"⟩] }
    ∃ w, Python.standard.shapes.Distinct ∧ d.restore Python.standard.shapes = .ok w ∧
      List.Forall₂ (fun r b => ∃ shape, Python.standard.shapes.get? r.type = some shape ∧
          BlockRecord.Describes shape r b) d.blocks w.blocks ∧
        (∀ link, w.parent? link.child = some link.place ↔ link ∈ d.connections) ∧
        (∀ link, w.occupant? link.place = some link.child ↔ link ∈ d.connections) ∧
        w.document.connections.Perm d.connections := by
  intro d
  have haccepted : (d.restore Python.standard.shapes).isOk := by decide +kernel
  cases hw : d.restore Python.standard.shapes with
  | error e => simp [hw, Except.isOk, Except.toBool] at haccepted
  | ok w =>
    exact ⟨w, Python.standard_distinct, rfl, restore_lists Python.standard_distinct hw⟩

private theorem builds_of_perm (hd : shapes.Distinct) (hp : d.connections.Perm links)
    (h : d.Builds shapes w) : ({ d with connections := links } : Document).Builds shapes w := by
  obtain ⟨blocks, ht, hj, rfl⟩ := h
  obtain ⟨hj', he⟩ := hj.perm (ht.linked hd) hp
  exact ⟨blocks, ht, hj', he.symm⟩

/-- Listing the connections in another order changes neither whether a document is accepted nor what it
gives. -/
theorem restore_perm (hd : shapes.Distinct) (hp : d.connections.Perm links) :
    (∃ w, d.restore shapes = .ok w ∧
      ({ d with connections := links } : Document).restore shapes = .ok w) ∨
    (∃ e, d.restore shapes = .error e) ∧
      ∃ e, ({ d with connections := links } : Document).restore shapes = .error e := by
  have hiff (w : Workspace) : d.restore shapes = .ok w ↔
      ({ d with connections := links } : Document).restore shapes = .ok w := by
    rw [restore_eq_ok hd, restore_eq_ok hd]
    exact and_congr_right fun _ => ⟨builds_of_perm hd hp, builds_of_perm hd hp.symm⟩
  cases h : d.restore shapes with
  | ok w => exact .inl ⟨w, rfl, (hiff w).mp h⟩
  | error e =>
    refine .inr ⟨⟨e, rfl⟩, ?_⟩
    cases h' : ({ d with connections := links } : Document).restore shapes with
    | error e' => exact ⟨e', rfl⟩
    | ok w => exact nomatch h.symm.trans ((hiff w).mpr h')

/-- A loop around two prints, listed from the inside out. -/
theorem restore_perm_of_reversed :
    let d : Document :=
      { version := 1
        blocks := [{ id := ⟨"loop"⟩, type := "controls_repeat_ext" },
          { id := ⟨"first"⟩, type := "text_print" }, { id := ⟨"second"⟩, type := "text_print" },
          { id := ⟨"word"⟩, type := "text" }]
        connections := [.input ⟨"loop"⟩ "DO" ⟨"first"⟩, .next ⟨"first"⟩ ⟨"second"⟩,
          .input ⟨"second"⟩ "TEXT" ⟨"word"⟩] }
    let reversed : Document := { d with connections := d.connections.reverse }
    Python.standard.shapes.Distinct ∧ d.connections.Perm d.connections.reverse ∧
      (reversed.restore Python.standard.shapes).isOk ∧
      ((∃ w, d.restore Python.standard.shapes = .ok w ∧
          reversed.restore Python.standard.shapes = .ok w) ∨
        (∃ e, d.restore Python.standard.shapes = .error e) ∧
          ∃ e, reversed.restore Python.standard.shapes = .error e) := by
  intro d reversed
  have hp : d.connections.Perm d.connections.reverse := (List.reverse_perm _).symm
  exact ⟨Python.standard_distinct, hp, by decide +kernel, restore_perm Python.standard_distinct hp⟩

end Workspace

end BlockProgram
