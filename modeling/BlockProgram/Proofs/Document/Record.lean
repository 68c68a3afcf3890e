import BlockProgram.Document.Restore
import BlockProgram.Proofs.Shape.Declared
import BlockProgram.Proofs.Workspace.Reshape

/-! What one record of a document becomes. A new block takes the fields of the record over those that its
shape gives it, and then the form of its mutation; nothing of that depends on the other blocks. -/
namespace BlockProgram

open Edit Workspace

variable {shapes : ShapeRegistry} {shape : Shape} {m : Mutation} {r : BlockRecord} {w : Workspace}
  {id : BlockId} {b b' : Block}

namespace BlockRecord

def block (r : BlockRecord) (shape : Shape) (m : Mutation) : Block :=
  ({ freshBlock shape r.id r.type r.shadow with
    fields := r.fields.entries.foldl (fun fields entry => fields.insert entry.1 entry.2)
      shape.defaults } : Block).reshaped shape m

/-- The record is one of a block of the given shape and mutation. -/
structure Reads (shapes : ShapeRegistry) (r : BlockRecord) (shape : Shape) (m : Mutation) : Prop where
  known : shapes.get? r.type = some shape
  fields : ∀ entry ∈ r.fields.entries, checkField shape r.id entry.1 entry.2 = .ok ()
  mutation : recordedMutation shape r = .ok m

/-- What a record of the given shape says about a block. -/
structure Describes (shape : Shape) (r : BlockRecord) (b : Block) : Prop where
  id : b.id = r.id
  type : b.type = r.type
  shadow : b.shadow = r.shadow
  mutation : (if r.mutation = "" then some shape.initial else Mutation.ofToken? r.mutation) =
    some b.mutation
  shown : shape.Shows b.mutation b.fields
  fields : ∀ name, (∀ value, shape.mirror b.mutation ≠ some (name, value)) →
    b.fields.get? name = (r.fields.get? name).or (shape.defaults.get? name)

end BlockRecord

namespace Workspace

/-- A record asks for the mutation of its token, or for the first one of its shape, if the shape accepts
it. -/
theorem recordedMutation_eq_ok : recordedMutation shape r = .ok m ↔
    (if r.mutation = "" then some shape.initial else Mutation.ofToken? r.mutation) = some m ∧
      shape.accepts m := by
  unfold recordedMutation
  cases (if r.mutation = "" then some shape.initial else Mutation.ofToken? r.mutation) with
  | none => simp
  | some m' =>
    dsimp only
    split
    · rename_i ha
      constructor
      · intro h
        cases h
        exact ⟨rfl, ha⟩
      · rintro ⟨h, -⟩
        cases h
        rfl
    · rename_i ha
      simp only [reduceCtorEq, Option.some.injEq, false_iff]
      rintro ⟨rfl, h⟩
      exact ha h

theorem checkField_eq_ok {name : String} {value : FieldValue} :
    checkField shape id name value = .ok () ↔ ∃ f, shape.fieldSpec? name = some f ∧ f.allows value := by
  unfold checkField
  cases shape.fieldSpec? name with
  | none => simp
  | some f => by_cases h : f.allows value <;> simp [h]

end Workspace

namespace BlockRecord

theorem bare_block : (r.block shape m).bare = r.block shape m := by
  simp [Block.bare, block, Block.reshaped, freshBlock, Shape.map_emptied_layout]

theorem Reads.describes (h : r.Reads shapes shape m) : r.Describes shape (r.block shape m) where
  id := rfl
  type := rfl
  shadow := rfl
  mutation := (recordedMutation_eq_ok.mp h.mutation).1
  shown := shape.shows_showMutation m _
  fields name hname := by
    change (showMutation shape m _).get? name = _
    rw [Shape.showMutation_eq]
    cases hm : shape.mirror m with
    | none => exact Fields.get?_foldl_entries
    | some entry =>
      have hne : name ≠ entry.1 := fun he => hname entry.2 (hm.trans (by rw [he]))
      rw [Fields.get?_insert, if_neg hne]
      exact Fields.get?_foldl_entries

/-- A record says nothing about links. -/
theorem Describes.congr (h : r.Describes shape b) (hb : b'.bare = b.bare) : r.Describes shape b' := by
  have hmutation := Block.mutation_of_bare hb
  have hfields := Block.fields_of_bare hb
  exact ⟨(congrArg Block.id hb).trans h.id, (congrArg Block.type hb).trans h.type,
    (congrArg Block.shadow hb).trans h.shadow, hmutation ▸ h.mutation,
    by simpa only [hmutation, hfields] using h.shown,
    by simpa only [hmutation, hfields] using h.fields⟩

end BlockRecord

namespace Workspace

/-- The blocks can come in, and are those of the records. -/
structure Takes (w : Workspace) (records : List BlockRecord) (blocks : List Block) : Prop where
  fresh : ∀ r ∈ records, ¬ w.has r.id
  nodup : (records.map (·.id)).Nodup
  read : List.Forall₂ (fun r b => ∃ shape m, BlockRecord.Reads w.shapes r shape m ∧
    b = r.block shape m) records blocks

/-- Records determine the blocks that they are restored to. -/
theorem Takes.unique {records : List BlockRecord} {blocks blocks' : List Block}
    (h : w.Takes records blocks) (h' : w.Takes records blocks') : blocks = blocks' := by
  refine List.right_unique_forall₂' (fun r b b' hr hr' => ?_) h.read h'.read
  obtain ⟨shape, m, hread, rfl⟩ := hr
  obtain ⟨shape', m', hread', rfl⟩ := hr'
  obtain rfl := Option.some.inj (hread.known.symm.trans hread'.known)
  obtain rfl := Except.ok.inj (hread.mutation.symm.trans hread'.mutation)
  rfl

variable {ok : Unit → Workspace → Prop}

private theorem modify_added (hn : ¬ w.has id) (hb : b.id = id) (f : Block → Block) :
    (w.added b).modify id f = w.added (f b) := by
  have hsame (d : Block) (hd : d ∈ w.blocks) : (if d.id = id then f d else d) = d :=
    if_neg fun he => hn (has_iff_mem_ids.mpr (List.mem_map.mpr ⟨d, hd, he⟩))
  simp [added, modify, hb, List.map_congr_left hsame]

private theorem ensures_update_added {refused : EditError → Workspace → Prop} (hn : ¬ w.has b.id)
    {f : Block → Block} (hok : ok () (w.added (f b))) :
    (update b.id f).Ensures (w.added b) ok refused := by
  rw [ensures_update, find?_added hn, if_pos rfl]
  exact (modify_added hn rfl f).symm ▸ hok

private theorem ensures_restoreFields {refused : EditError → Workspace → Prop}
    (entries : List (String × FieldValue)) (hn : ¬ w.has b.id)
    (hok : (∀ entry ∈ entries, checkField shape b.id entry.1 entry.2 = .ok ()) →
      ok () (w.added { b with
        fields := entries.foldl (fun fields entry => fields.insert entry.1 entry.2) b.fields }))
    (hrefused : ¬ (∀ entry ∈ entries, checkField shape b.id entry.1 entry.2 = .ok ()) →
      ∀ err w', refused err w') :
    (restoreFields shape b.id entries).Ensures (w.added b) ok refused := by
  induction entries generalizing b with
  | nil => exact hok (by simp)
  | cons entry rest ih =>
    unfold restoreFields
    rw [ensures_bind, ensures_ofResult]
    cases hv : checkField shape b.id entry.1 entry.2 with
    | error e =>
      refine hrefused (fun hall => ?_) _ _
      rw [hall entry List.mem_cons_self] at hv
      cases hv
    | ok _ =>
      dsimp only
      rw [ensures_bind]
      refine ensures_update_added hn (ih (b := { b with fields := b.fields.insert entry.1 entry.2 })
        hn (fun hrest => hok ?_) fun hno => hrefused fun hall => hno ?_)
      · exact List.forall_mem_cons.mpr ⟨hv, hrest⟩
      · exact fun entry he => hall entry (List.mem_cons_of_mem _ he)

private theorem carryAll_of_empty {keep : Bool} {olds fresh : List Socket}
    (h : ∀ s ∈ olds, s.target = none) : carryAll keep olds fresh = (fresh, []) := by
  induction olds with
  | nil => rfl
  | cons s rest ih =>
    unfold carryAll
    rw [h s List.mem_cons_self]
    exact ih fun s hs => h s (List.mem_cons_of_mem _ hs)

private theorem ensures_rebuild_added {keep : Bool} {refused : EditError → Workspace → Prop}
    (hn : ¬ w.has b.id) (hempty : ∀ s ∈ b.sockets, s.target = none) (hlast : b.next = none)
    (hok : ok () (w.added (b.reshaped shape m))) :
    (rebuild b.id shape m keep).Ensures (w.added b) ok refused := by
  unfold rebuild
  rw [ensures_bind, ensures_require, find?_added hn, if_pos rfl]
  dsimp only
  rw [carryAll_of_empty hempty]
  change (update b.id _ >>= _).Ensures _ _ _
  rw [ensures_bind]
  refine ensures_update_added hn ?_
  change Ensures (if _ then _ else _) (w.added (b.reshaped shape m)) _ _
  split
  · rw [ensures_bind, ensures_require, find?_added (b := b.reshaped shape m) hn,
      if_pos (show b.id = (b.reshaped shape m).id from rfl)]
    dsimp only
    rw [show (b.reshaped shape m).next = none from hlast]
    exact hok
  · exact hok

/-- A record is restored exactly if its id is new and it can be read; its block is then the last one. -/
theorem ensures_restoreBlock {refused : RestoreError → Workspace → Prop}
    (hok : ¬ w.has r.id → ∀ shape m, r.Reads w.shapes shape m → ok () (w.added (r.block shape m)))
    (hrefused : (¬ w.has r.id → ∀ shape m, ¬ r.Reads w.shapes shape m) → ∀ err w', refused err w') :
    (restoreBlock r).Ensures w ok refused := by
  unfold restoreBlock add
  rw [ensures_bind, ensures_refusedAs, ensures_bind, ensures_get]
  dsimp only
  by_cases hn : w.has r.id
  · rw [if_pos hn]
    exact hrefused (fun hnew => absurd hn hnew) _ _
  rw [if_neg hn]
  cases hshape : w.shapes.get? r.type with
  | none =>
    refine hrefused (fun _ shape m h => ?_) _ _
    rw [h.known] at hshape
    cases hshape
  | some shape =>
    let fresh := freshBlock shape r.id r.type r.shadow
    have hfresh : ¬ w.has fresh.id := hn
    have honly (shape' : Shape) (m : Mutation) (h : r.Reads w.shapes shape' m) : shape' = shape :=
      Option.some.inj (h.known.symm.trans hshape)
    change Ensures _ (w.added fresh) _ _
    rw [ensures_bind, ensures_refusedAs, ensures_bind, ensures_require,
      show r.id = fresh.id from rfl, find?_added hfresh, if_pos rfl]
    dsimp only
    rw [ensures_requireShape, show (w.added fresh).shapes.get? fresh.type = some shape from hshape]
    dsimp only
    rw [ensures_bind, ensures_refusedAs]
    refine ensures_restoreFields r.fields.entries hfresh (fun hfields => ?_)
      fun hno err => hrefused (fun _ shape' m h => hno ?_) (.block r.id err)
    · rw [ensures_bind, ensures_refusedAs, ensures_ofResult]
      cases hm : recordedMutation shape r with
      | error e =>
        refine hrefused (fun _ shape' m h => ?_) _ _
        have hread := h.mutation
        rw [honly shape' m h, hm] at hread
        cases hread
      | ok m =>
        dsimp only
        rw [ensures_refusedAs]
        exact ensures_rebuild_added (b := { fresh with fields := r.fields.entries.foldl _ _ }) hn
          (fun s hs => shape.target_of_mem_layout hs) rfl (hok hn shape m ⟨hshape, hfields, hm⟩)
    · exact honly shape' m h ▸ h.fields

private theorem has_added : (w.added b).has id ↔ w.has id ∨ id = b.id := by
  simp only [has_iff_mem_ids, ids, added, List.map_append, List.mem_append, List.map_cons,
    List.map_nil, List.mem_singleton]

/-- Records are restored exactly if their ids are new and different and each of them can be read; their blocks
are then the last ones. -/
theorem ensures_restoreBlocks {refused : RestoreError → Workspace → Prop} (records : List BlockRecord)
    (hok : ∀ blocks, w.Takes records blocks → ok () { w with blocks := w.blocks ++ blocks })
    (hrefused : (∀ blocks, ¬ w.Takes records blocks) → ∀ err w', refused err w') :
    (records.forM restoreBlock).Ensures w ok refused := by
  induction records generalizing w with
  | nil => simpa using hok [] ⟨nofun, .nil, .nil⟩
  | cons r rest ih =>
    change (restoreBlock r >>= fun _ => rest.forM restoreBlock).Ensures w ok refused
    rw [ensures_bind]
    refine ensures_restoreBlock (fun hn shape m h => ?_) fun hno => hrefused fun blocks ht => ?_
    -- the other records are read into the workspace that has the first block already
    · refine ih (fun blocks ht => ?_) fun hno => hrefused fun blocks ht => ?_
      · have hok := hok (r.block shape m :: blocks) ⟨fun r' hr' => ?_, ?_, .cons ⟨shape, m, h, rfl⟩ ht.read⟩
        · simpa [added] using hok
        · rcases List.mem_cons.mp hr' with rfl | hr'
          · exact hn
          · exact fun hhas => ht.fresh r' hr' (has_added.mpr (.inl hhas))
        · refine List.nodup_cons.mpr ⟨fun hm => ?_, ht.nodup⟩
          obtain ⟨r', hr', he⟩ := List.mem_map.mp hm
          exact ht.fresh r' hr' (has_added.mpr (.inr he))
      · obtain ⟨hfresh, hnodup, hread⟩ := ht
        cases hread with
        | cons _ hread =>
          refine hno _ ⟨fun r' hr' hhas => ?_, (List.nodup_cons.mp hnodup).2, hread⟩
          rcases has_added.mp hhas with hhas | he
          · exact hfresh r' (List.mem_cons_of_mem _ hr') hhas
          · exact (List.nodup_cons.mp hnodup).1 (List.mem_map.mpr ⟨r', hr', he⟩)
    · obtain ⟨hfresh, -, hread⟩ := ht
      cases hread with
      | cons hr _ =>
        obtain ⟨shape, m, h, -⟩ := hr
        exact hno (hfresh r List.mem_cons_self) shape m h

end Workspace

end BlockProgram
