import BlockProgram.Proofs.Document.Restore
import BlockProgram.Proofs.Python.Vocabulary
import BlockProgram.Proofs.Workspace.Graft
import BlockProgram.Proofs.Workspace.Satellite

/-! Every workspace that edits lead to is a forest. Composing is an edit if the connections of the satellite
were saved in the same workspace; what happens with older ones is another matter. -/
namespace BlockProgram.Workspace

open Edit

/-- The public edits of a workspace. -/
inductive Action where
  | add (id : BlockId) (type : String) (shadow : Bool)
  | delete (id : BlockId) (heal : Bool)
  | setField (id : BlockId) (name : String) (value : FieldValue)
  | connectValue (parent : BlockId) (socket : String) (child : BlockId)
  | connectStatement (parent : BlockId) (socket : String) (child : BlockId)
  | connectNext (previous child : BlockId)
  | disconnect (id : BlockId)
  | unplug (id : BlockId) (heal : Bool)
  | reshape (id : BlockId) (count : Nat)
  | setVariant (id : BlockId) (variant : String)
  | load (text : String)
  deriving DecidableEq, Repr

/-- The workspace after an edit, be it carried out or refused. -/
def Action.apply (w : Workspace) : Action → Workspace
  | .add id type shadow => ((Workspace.add id type shadow).perform w).2
  | .delete id heal => ((Workspace.delete id heal).perform w).2
  | .setField id name value => ((Workspace.setField id name value).perform w).2
  | .connectValue p s c => ((Workspace.connectValue p s c).perform w).2
  | .connectStatement p s c => ((Workspace.connectStatement p s c).perform w).2
  | .connectNext p c => ((Workspace.connectNext p c).perform w).2
  | .disconnect id => ((Workspace.disconnect id).perform w).2
  | .unplug id heal => ((Workspace.unplug id heal).perform w).2
  | .reshape id count => ((Workspace.reshape id count).perform w).2
  | .setVariant id variant => ((Workspace.setVariant id variant).perform w).2
  | .load text => ((Workspace.load text).perform w).2

/-- The workspaces that edits lead to from an empty one. -/
inductive Edited (shapes : ShapeRegistry) : Workspace → Prop where
  | empty : Edited shapes (.empty shapes)
  | act {w : Workspace} (h : Edited shapes w) (a : Action) : Edited shapes (a.apply w)
  | compose {w : Workspace} {s s₁ s₂ : Satellite} (h : Edited shapes w)
      (hs : ((saveConnections s).perform w).1 = .ok s₁) (hr : s₁.Rearranged s₂) :
      Edited shapes ((Workspace.compose s₂).perform w).2

/-- Every link is written at both of its ends, leads to a block of the workspace, and going up from any
block ends at one that is plugged in nowhere. -/
structure Forest (w : Workspace) : Prop where
  listed : w.ids.Nodup
  found : ∀ b ∈ w.blocks, w.find? b.id = some b
  input : ∀ p s c, (∃ b ∈ w.blocks, b.id = p ∧ ∃ k ∈ b.sockets, k.name = s ∧ k.target = some c) ↔
    ∃ d ∈ w.blocks, d.id = c ∧ d.parent = some (.input p s)
  next : ∀ p c, (∃ b ∈ w.blocks, b.id = p ∧ b.next = some c) ↔
    ∃ d ∈ w.blocks, d.id = c ∧ d.parent = some (.next p)
  mentioned : ∀ b ∈ w.blocks, (∀ c ∈ b.targets, c ∈ w.ids) ∧ (∀ c ∈ b.next, c ∈ w.ids) ∧
    ∀ place ∈ b.parent, place.block ∈ w.ids
  rooted : ∀ id ∈ w.ids, w.Rooted id

variable {rooted typed : Prop} {w : Workspace} {shapes : ShapeRegistry}

/-- One edit keeps a workspace sound, be it carried out or refused. -/
theorem Sound.apply (h : Sound rooted typed w) (a : Action) : Sound rooted typed (a.apply w) := by
  cases a with
  | add id type shadow => exact (keeps_add id type shadow).perform h
  | delete id heal => exact (keeps_delete id heal).perform h
  | setField id name value => exact (keeps_setField id name value).perform h
  | connectValue p s c => exact (keeps_connectValue p s c).perform h
  | connectStatement p s c => exact (keeps_connectStatement p s c).perform h
  | connectNext p c => exact (keeps_connectNext p c).perform h
  | disconnect id => exact (keeps_disconnect id).perform h
  | unplug id heal => exact (keeps_unplug id heal).perform h
  | reshape id count => exact (keeps_reshape id count).perform h
  | setVariant id variant => exact (keeps_setVariant id variant).perform h
  | load text => exact (keeps_load text).perform h

/-- Links that agree at both ends and form no circle make a forest. -/
theorem Linked.forest (h : w.Linked) (ha : w.Acyclic) : w.Forest := by
  have hparent (c : BlockId) (place : Attachment) :
      (∃ d ∈ w.blocks, d.id = c ∧ d.parent = some place) ↔ w.parent? c = some place := by
    constructor
    · rintro ⟨d, hd, rfl, hp⟩
      simp [parent?, find?_of_mem h.nodup hd, hp]
    · intro hp
      obtain ⟨d, hd, hp⟩ := Option.bind_eq_some_iff.mp hp
      exact ⟨d, (mem_of_find? hd).1, (mem_of_find? hd).2, hp⟩
  have hinput (p : BlockId) (s : String) (c : BlockId) :
      (∃ b ∈ w.blocks, b.id = p ∧ ∃ k ∈ b.sockets, k.name = s ∧ k.target = some c) ↔
        w.occupant? (.input p s) = some c := by
    constructor
    · rintro ⟨b, hb, rfl, k, hk, rfl, ht⟩
      have hfind := find?_of_mem h.nodup hb
      exact occupant?_of_socket? hfind (Block.socket?_of_mem (h.socket_names hfind) hk) ht
    · intro ho
      obtain ⟨b, hb, ht⟩ := Option.bind_eq_some_iff.mp ho
      obtain ⟨k, hk, ht⟩ := Option.bind_eq_some_iff.mp ht
      exact ⟨b, (mem_of_find? hb).1, (mem_of_find? hb).2, k, List.mem_of_find?_eq_some hk,
        by simpa using List.find?_some hk, ht⟩
  have hnext (p c : BlockId) :
      (∃ b ∈ w.blocks, b.id = p ∧ b.next = some c) ↔ w.occupant? (.next p) = some c := by
    constructor
    · rintro ⟨b, hb, rfl, hn⟩
      exact occupant?_of_next (find?_of_mem h.nodup hb) hn
    · intro ho
      obtain ⟨b, hb, hn⟩ := Option.bind_eq_some_iff.mp ho
      exact ⟨b, (mem_of_find? hb).1, (mem_of_find? hb).2, hn⟩
  refine ⟨h.nodup, fun b hb => find?_of_mem h.nodup hb, fun p s c => ?_, fun p c => ?_,
    fun b hb => ⟨fun c hc => ?_, fun c hc => ?_, fun place hp => ?_⟩,
    fun id hid => ha id (has_iff_mem_ids.mpr hid)⟩
  · rw [hinput, hparent, h.link]
  · rw [hnext, hparent, h.link]
  · obtain ⟨k, hk, ht⟩ := List.mem_filterMap.mp hc
    have ho := (hinput b.id k.name c).mp ⟨b, hb, rfl, k, hk, rfl, ht⟩
    exact has_iff_mem_ids.mp (has_of_parent? ((h.link _ _).mp ho))
  · have ho := (hnext b.id c).mp ⟨b, hb, rfl, hc⟩
    exact has_iff_mem_ids.mp (has_of_parent? ((h.link _ _).mp ho))
  · exact has_iff_mem_ids.mp (h.has_block ((hparent b.id place).mp ⟨b, hb, rfl, hp⟩))

/-- Further edits lead to edited workspaces. -/
theorem Edited.run (h : Edited shapes w) (actions : List Action) :
    Edited shapes (actions.foldl Action.apply w) := by
  induction actions generalizing w with
  | nil => exact h
  | cons a rest ih => exact ih (h.act a)

/-- A satellite whose connections have just been saved plugs in only what the owner holds. -/
theorem Sound.compose_saved {s s₁ s₂ : Satellite} (h : Sound True typed w)
    (hs : ((saveConnections s).perform w).1 = .ok s₁) (hr : s₁.Rearranged s₂) :
    Sound True typed ((Workspace.compose s₂).perform w).2 := by
  refine (h.ensures_compose fun _ _ _ hc => (h.fitting_of_saved hs hr hc).untyped).mono
    (fun _ _ ⟨_, _, _, hc, _, hsound⟩ => hsound (fun _ p hp => ?_) ?_) (fun _ _ h' => h'.1) |>.after
  · obtain ⟨n, hn⟩ := h.linked.planned_of_saved hs hr hp
    exact (h.acyclic trivial).not_under hn
  · exact h.fitting_of_saved hs hr hc

theorem Edited.sound (hd : shapes.Distinct) (hr : typed → shapes.Regular True)
    (h : Edited shapes w) : Sound True typed w := by
  induction h with
  | empty => exact sound_empty hd hr
  | act _ a ih => exact ih.apply a
  | compose _ hs hr ih => exact ih.compose_saved hs hr

/-- Edits lead to forests, whatever they are and in whatever order. -/
theorem edited_forest (hd : shapes.Distinct) (h : Edited shapes w) : w.Forest :=
  have hs : Sound True False w := h.sound hd False.elim
  hs.linked.forest (hs.acyclic trivial)

/-- A list with a number in its second socket; its second unit is moved to the front. -/
theorem edited_forest_of_moved :
    let w := [Action.add ⟨"list"⟩ "lists_create_with" false, .add ⟨"one"⟩ "math_number" false,
      .connectValue ⟨"list"⟩ "ITEM1" ⟨"one"⟩].foldl Action.apply (.empty Python.standard.shapes)
    let unit (n : Nat) (saved : List (Option BlockId)) : SatelliteUnit :=
      ⟨n, "lists_create_with_item", saved⟩
    let moved : Satellite := ⟨⟨"list"⟩, "lists_create_with", [⟨"lists_create_with_item", none⟩],
      [unit 1 [some ⟨"one"⟩], unit 0 [none], unit 2 [none]], 3⟩
    Python.standard.shapes.Distinct ∧
      Edited Python.standard.shapes ((Workspace.compose moved).perform w).2 ∧
      Forest ((Workspace.compose moved).perform w).2 := by
  intro w unit moved
  have hw : Edited Python.standard.shapes w := Edited.empty.run _
  have hsaved : ((saveConnections { moved with units := [unit 0 [], unit 1 [], unit 2 []] }).perform
      w).1 = .ok { moved with
        units := [unit 0 [none], unit 1 [some ⟨"one"⟩], unit 2 [none]] } := by decide +kernel
  have hmoved : Satellite.Rearranged { moved with
      units := [unit 0 [none], unit 1 [some ⟨"one"⟩], unit 2 [none]] } moved :=
    .move .refl (show Satellite.move? _ 1 0 = some moved by decide +kernel)
  have h := hw.compose hsaved hmoved
  exact ⟨Python.standard_distinct, h, edited_forest Python.standard_distinct h⟩

end BlockProgram.Workspace
