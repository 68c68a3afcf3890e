import BlockProgram.Proofs.Mutation.Transition
import BlockProgram.Proofs.Workspace.Refusal
import BlockProgram.Proofs.Workspace.Removal
import BlockProgram.Proofs.Workspace.Valid

/-! What reshaping a block and switching its variant lead to. Only what a removed socket holds leaves the
block, only a block whose connectors change leaves its place, and doing the same again does nothing. -/
namespace BlockProgram

private theorem Mutation.after_after (m : Mutation) (event : Mutation.Event) :
    (m.after event).after event = m.after event := by
  cases event <;> cases m <;> rfl

variable {shape : Shape} {m m' : Mutation}

private theorem LayoutDiff.removed_of_layout (h : shape.layout m' = shape.layout m) :
    (LayoutDiff.between shape m m').removed = [] := by
  simp [between, h]

private theorem LayoutDiff.isEmpty_between_self : (LayoutDiff.between shape m m).isEmpty := by
  simp [isEmpty, between]

private theorem Shape.Supports.connectorsOf_of_count {n : Nat} (h : shape.Supports (.setCount n))
    (m : Mutation) : shape.connectorsOf m = shape.connectors := by
  unfold Supports at h
  unfold connectorsOf
  cases hmut : shape.mutator <;> simp_all

theorem Shape.Supports.variants {name : String} (h : shape.Supports (.setVariant name)) :
    ∃ field list, shape.mutator = .variants field list := by
  unfold Supports at h
  cases hmut : shape.mutator <;> simp_all

private theorem Shape.layout_of_variants {field : String} {list : List VariantSpec}
    (h : shape.mutator = .variants field list) (m m' : Mutation) :
    shape.layout m' = shape.layout m := by
  simp [layout, mutableSockets, h]

/-- A block in another variant, which a field shows. -/
def Block.switched (b : Block) (connectors : Connectors) (field name : String) : Block :=
  { b with
    connectors, mutation := .variant name, fields := b.fields.insert field (.choice name) }

namespace Workspace

open Edit

/-- `w'` is `w` with `b`, now `o`, in the structure of `m`: what the sockets of `diff` held that are
removed is out of them. -/
structure Reshaped (shape : Shape) (m : Mutation) (diff : LayoutDiff) (b o : Block)
    (w w' : Workspace) : Prop where
  shapes : w'.shapes = w.shapes
  found : w'.find? b.id = some o
  layout : o.sockets.map Socket.emptied = shape.layout m
  kept : ∀ n ∈ diff.kept, o.target? n = b.target? n
  added : ∀ n ∈ diff.added, o.target? n = none
  /-- What a removed socket held is plugged in nowhere, and what was beneath it is as it was. -/
  freed : ∀ c ∈ b.targetsAt diff.removed, ∀ d, w.find? c = some d → d.shadow = false →
    w'.find? c = some { d with parent := none } ∧
      ∀ x, w.Under c x → x ≠ c → w'.find? x = w.find? x
  /-- A stand-in is gone, with all that was beneath it. -/
  lost : ∀ c ∈ b.targetsAt diff.removed, w.standIn c → ∀ x, w.Under c x → w'.find? x = none
  owner : o = { b with
    sockets := o.sockets, mutation := m, fields := showMutation shape m b.fields }
  others : ∀ x, x ≠ b.id → (∀ c ∈ b.targetsAt diff.removed, ¬ w.Under c x) →
    w'.find? x = w.find? x
  order : w'.ids = w.ids.filter w'.has

/-- `w'` is `w` with `b` in the variant `name`, which `field` shows. -/
structure Switched (shape : Shape) (field name : String) (b : Block) (w w' : Workspace) : Prop where
  self : ∃ parent next, w'.find? b.id =
    some { b.switched (shape.connectorsOf (.variant name)) field name with parent, next }
  alike : shape.connectorsOf (.variant name) = shape.connectorsOf b.mutation →
    w' = w.modify b.id fun d => d.switched d.connectors field name
  /-- A block with other connectors has left its place to the one after it. -/
  apart : shape.connectorsOf (.variant name) ≠ shape.connectorsOf b.mutation →
    ∃ w₁, w.Unthreaded b.id w₁ ∧
      w' = w₁.modify b.id (·.switched (shape.connectorsOf (.variant name)) field name)
  top : shape.connectorsOf (.variant name) ≠ shape.connectorsOf b.mutation →
    w'.parent? b.id = none ∧ w'.occupant? (.next b.id) = none
  heir : shape.connectorsOf (.variant name) ≠ shape.connectorsOf b.mutation →
    ∀ q, w.occupant? (.next b.id) = some q → w'.parent? q = w.parent? b.id

/-- The edit is made if there is a transition, with its result, and made again it changes nothing. Without a
transition nothing is changed. -/
structure Enacts (w : Workspace) (e : Edit MutationError LayoutDiff)
    (transition : Except MutationError (Mutation × LayoutDiff))
    (P : Mutation → LayoutDiff → Workspace → Prop) : Prop where
  made : ∀ m diff, transition = .ok (m, diff) → ∃ w', e.perform w = (.ok diff, w') ∧ P m diff w' ∧
    ∃ again, e.perform w' = (.ok again, w') ∧ again.isEmpty
  refused : ∀ err, transition = .error err → e.perform w = (.error err, w)

variable {typed : Prop} {shapes : ShapeRegistry} {w w' : Workspace} {id : BlockId} {b o : Block}
  {diff : LayoutDiff} {event : Mutation.Event} {f : Block → Block}

/-- Without a removed socket the block is only rebuilt. -/
theorem Shed.rebuilt (h : w.Shed id b [] shape m w') (hl : w.Linked) : Rebuilt w id shape m w' := by
  obtain ⟨w₁, hcut, hr⟩ := h
  have hcut : CutOff w w.standIn [] w₁ := by simpa [Block.targetsAt] using hcut
  have hnone (x : BlockId) : ¬ w.Dropped w.standIn [] x := by simp [Dropped]
  have hids : w₁.ids = w.ids := ids_eq_of_has hl.nodup hcut.ids fun x => by
    rw [has_congr (hcut.bare x (hnone x))]
  have hsame : w₁ = w := hl.ext hcut.linked hcut.shapes hids (fun x => hcut.bare x (hnone x))
    fun x => hcut.kept x (hnone x) (by simp)
  exact hsame ▸ hr

section shed

variable (h : Sound True typed w) (hb : w.find? id = some b)
  (hshape : w.shapes.get? b.type = some shape)
include h hb hshape

/-- A transition to the same connectors empties the sockets that go. -/
theorem Sound.ensures_applyEvent_shed
    (ht : shape.transition b.mutation event = .ok (m, diff))
    (hsame : shape.connectorsOf m = shape.connectorsOf b.mutation) :
    (applyEvent id event).Ensures w
      (fun diff' w' => diff' = diff ∧ w.Shed id b diff.removed shape m w') fun _ _ => False := by
  rw [ensures_applyEvent_iff hb hshape, ht]
  obtain ⟨-, -, -, rfl⟩ := Shape.transition_eq_ok.mp ht
  exact (h.ensures_applyDiff_shed hb hshape).mono (fun _ _ hs => ⟨rfl, by rwa [if_pos hsame] at hs⟩)
    fun _ _ h' => h'

/-- In the same sockets a block takes another mutation by itself. -/
theorem Sound.eq_modify (hlayout : shape.layout m = shape.layout b.mutation)
    (hlast : shape.connectorsOf m = shape.connectorsOf b.mutation ∨ w.occupant? (.next id) = none)
    (hs : w.Shed id b (LayoutDiff.between shape b.mutation m).removed shape m w')
    (hf : f b = { b with
      connectors := shape.connectorsOf m
      fields := showMutation shape m b.fields
      mutation := m }) : w' = w.modify id f := by
  rw [LayoutDiff.removed_of_layout hlayout] at hs
  have hr := hs.rebuilt h.linked
  have hdistinct := h.distinct shape (ShapeRegistry.mem_of_get? hshape).1
  have hbare : w.bare? id = some b.bare := bare?_of_find? hb
  have hparent (x : BlockId) : w'.parent? x = w.parent? x := by
    rcases hlast with hsame | hnone
    · exact h.parent?_rebuilt hbare hshape hsame hr x
    · rw [hr.parent, if_neg]
      rintro ⟨hp, -⟩
      simp [(h.linked.link _ _).mpr hp] at hnone
  exact h.linked.eq_modify (hr.linked h.linked hdistinct) hr.shapes hr.ids hb hdistinct
    (hlayout ▸ (h.layout hb hshape).1) hr.bare hparent hf

/-- A block whose fields show its mutation does not change with the mutation that it has. -/
theorem Sound.ensures_applyEvent_same
    (ht : shape.transition b.mutation event = .ok (b.mutation, diff))
    (hshows : shape.Shows b.mutation b.fields) :
    (applyEvent id event).Ensures w (fun diff' w' => diff'.isEmpty ∧ w' = w)
      fun _ _ => False := by
  refine (h.ensures_applyEvent_shed hb hshape ht rfl).mono (fun diff' w' ⟨he, hs⟩ => ?_)
    fun _ _ h' => h'
  obtain ⟨-, -, -, rfl⟩ := Shape.transition_eq_ok.mp ht
  have hf : (fun d : Block => d) b = { b with
      connectors := shape.connectorsOf b.mutation
      fields := showMutation shape b.mutation b.fields
      mutation := b.mutation } := by
    rw [hshows.showMutation, ← (h.layout hb hshape).2]
  have hw' : w' = w.modify id fun d => d := h.eq_modify hb hshape rfl (.inl rfl) hs hf
  exact ⟨he ▸ LayoutDiff.isEmpty_between_self, by simp [hw', modify]⟩

end shed

section targets

variable {names : List String} {c e x : BlockId} (h : Sound True typed w)
  (hb : w.find? b.id = some b)
include h hb

private theorem exists_place_of_target (hc : c ∈ b.targetsAt names) :
    ∃ place, w.parent? c = some place ∧ place.block = b.id := by
  obtain ⟨n, -, hp⟩ := (h.linked.mem_targetsAt hb).mp hc
  exact ⟨_, hp, rfl⟩

private theorem ne_of_under_target (hc : c ∈ b.targetsAt names) (hu : w.Under c x) : x ≠ b.id := by
  rintro rfl
  obtain ⟨place, hp, he⟩ := exists_place_of_target h hb hc
  exact (h.acyclic trivial).not_under hp (he ▸ hu)

private theorem target_eq (hc : c ∈ b.targetsAt names) (he : e ∈ b.targetsAt names)
    (hu : w.Under c e) : c = e := by
  obtain ⟨place, hp, hpb⟩ := exists_place_of_target h hb hc
  obtain ⟨place', hp', hpb'⟩ := exists_place_of_target h hb he
  exact (h.acyclic trivial).siblings hp hp' (hpb.trans hpb'.symm) hu

private theorem not_dropped_self : ¬ w.Dropped w.standIn (b.targetsAt names) b.id :=
  (h.acyclic trivial).not_dropped_owner h.linked hb

/-- What is beneath one target is beneath no other, so it is dropped only with that one. -/
theorem not_dropped_of_target (hc : c ∈ b.targetsAt names) (hplain : w.standIn c = false)
    (hu : w.Under c x) : ¬ w.Dropped w.standIn (b.targetsAt names) x := by
  rintro ⟨e, he, hdrop, hue⟩
  have hce : c = e := (hu.linear hue).elim (target_eq h hb hc he)
    fun hec => (target_eq h hb he hc hec).symm
  simp [← hce, hplain] at hdrop

end targets

section shed

variable {names : List String} {w₁ : Workspace} {c x : BlockId}
  (h : Sound True typed w) (hb : w.find? b.id = some b)
  (hshape : w.shapes.get? b.type = some shape)
  (hsame : shape.connectorsOf m = shape.connectorsOf b.mutation)
  (hcut : CutOff w w.standIn (b.targetsAt names) w₁) (hr : Rebuilt w₁ b.id shape m w')
include h hb hshape hsame hcut hr

omit hb hsame in
private theorem linked_shed : w'.Linked :=
  hr.linked hcut.linked (h.distinct shape (ShapeRegistry.mem_of_get? hshape).1)

omit hshape hsame hr in
private theorem bare?_shed_self : w₁.bare? b.id = some b.bare := by
  rw [hcut.bare _ (not_dropped_self h hb)]
  simp [bare?, hb]

private theorem parent?_shed : w'.parent? x = w₁.parent? x :=
  (h.of_pruned hcut.pruned hcut.linked).parent?_rebuilt (bare?_shed_self h hb hcut)
    (hcut.shapes ▸ hshape) hsame hr x

private theorem occupant?_shed_iff (place : Attachment)
    (hplace : ¬ w.Dropped w.standIn (b.targetsAt names) place.block) :
    w'.occupant? place = some c ↔ w.occupant? place = some c ∧ c ∉ b.targetsAt names := by
  rw [← hcut.occupant?_iff h.linked hplace, (linked_shed h hshape hcut hr).link, hcut.linked.link,
    parent?_shed h hb hshape hsame hcut hr]

/-- Other places than those sockets hold what they held. -/
theorem occupant?_shed (place : Attachment)
    (hplace : ¬ w.Dropped w.standIn (b.targetsAt names) place.block)
    (hne : ∀ n ∈ names, place ≠ .input b.id n) : w'.occupant? place = w.occupant? place := by
  refine Option.ext fun c => ?_
  rw [occupant?_shed_iff h hb hshape hsame hcut hr place hplace, and_iff_left_iff_imp]
  intro ho hc
  obtain ⟨n, hn, hp⟩ := (h.linked.mem_targetsAt hb).mp hc
  exact hne n hn (Option.some.inj (((h.linked.link _ _).mp ho).symm.trans hp))

private theorem find?_shed (hne : x ≠ b.id)
    (hx : ¬ w.Dropped w.standIn (b.targetsAt names) x) :
    w'.find? x = (w.find? x).map fun d => { d with parent := w'.parent? x } := by
  have hplace (place : Attachment) (he : place.block = x) :
      w'.occupant? place = w.occupant? place :=
    occupant?_shed h hb hshape hsame hcut hr place (he ▸ hx) fun n _ hn => hne (by rw [← he, hn]; rfl)
  rw [(linked_shed h hshape hcut hr).find?_map ((hr.other hne).trans (hcut.bare x hx))
    fun n => hplace _ rfl, hplace _ rfl]
  cases hd : w.find? x <;> simp [occupant?, hd]

private theorem find?_shed_of_kept (hne : x ≠ b.id)
    (hx : ¬ w.Dropped w.standIn (b.targetsAt names) x) (hc : x ∉ b.targetsAt names) :
    w'.find? x = w.find? x := by
  rw [find?_shed h hb hshape hsame hcut hr hne hx, parent?_shed h hb hshape hsame hcut hr,
    hcut.kept x hx hc]
  cases hd : w.find? x <;> simp [parent?, hd]

private theorem find?_shed_self : ∃ o, w'.find? b.id = some o ∧
    o.sockets.map Socket.emptied = shape.layout m ∧
    o = { b with
      sockets := o.sockets, mutation := m, fields := showMutation shape m b.fields } := by
  have hself : ¬ w.Dropped w.standIn (b.targetsAt names) b.id := not_dropped_self h hb
  have hnotcut : b.id ∉ b.targetsAt names := fun hm => ne_of_under_target h hb hm .self rfl
  obtain ⟨o, ho, hlayout, howner⟩ := exists_reshaped (hr.self (bare?_shed_self h hb hcut))
  rw [parent?_shed h hb hshape hsame hcut hr, hcut.kept _ hself hnotcut,
    occupant?_shed h hb hshape hsame hcut hr (.next b.id) hself fun _ _ => by simp,
    hsame, ← (h.layout hb hshape).2] at howner
  refine ⟨o, ho, hlayout, howner.trans ?_⟩
  simp [parent?, occupant?, hb]

end shed

/-- A socket that a mutation adds was not there before. -/
theorem Sound.target?_of_added (h : Sound True typed w) (hb : w.find? b.id = some b)
    (hshape : w.shapes.get? b.type = some shape) {n : String}
    (hn : n ∈ (LayoutDiff.between shape b.mutation m).added) : b.target? n = none := by
  have hnames : b.sockets.map (·.name) = (shape.layout b.mutation).map (·.name) :=
    Socket.map_name_of_emptied ((h.layout hb hshape).1.trans (shape.map_emptied_layout _).symm)
  have hnew : n ∉ b.sockets.map (·.name) := hnames ▸ of_decide_eq_true (List.mem_filter.mp hn).2
  unfold Block.target? Block.socket?
  rw [List.find?_eq_none.mpr fun k hk => by
    simpa using fun he => hnew (List.mem_map.mpr ⟨k, hk, he⟩)]
  rfl

/-- Emptying the sockets that a mutation removes, and then rebuilding, reshapes the block. -/
theorem Sound.reshaped (h : Sound True typed w) (hb : w.find? b.id = some b)
    (hshape : w.shapes.get? b.type = some shape)
    (hsame : shape.connectorsOf m = shape.connectorsOf b.mutation)
    (hs : w.Shed b.id b (LayoutDiff.between shape b.mutation m).removed shape m w') :
    ∃ o, Reshaped shape m (.between shape b.mutation m) b o w w' := by
  obtain ⟨w₁, hcut, hr⟩ := hs
  obtain ⟨o, ho, hlayout, howner⟩ := find?_shed_self h hb hshape hsame hcut hr
  have hself : ¬ w.Dropped w.standIn
      (b.targetsAt (LayoutDiff.between shape b.mutation m).removed) b.id := not_dropped_self h hb
  refine ⟨o, {
    shapes := hr.shapes.trans hcut.shapes
    found := ho
    layout := hlayout
    kept := fun n hn => ?_
    added := fun n hn => ?_
    freed := fun c hc d hd hplain => ?_
    lost := fun c hc hs x hu => ?_
    owner := howner
    others := fun x hne hx => ?_
    order := ids_eq_filter h.linked.nodup (hr.ids ▸ hcut.ids) }⟩
  · have hocc := occupant?_shed h hb hshape hsame hcut hr (.input b.id n) hself
    have hkept : n ∉ (LayoutDiff.between shape b.mutation m).removed := fun hremoved =>
      of_decide_eq_true (List.mem_filter.mp hremoved).2 (List.mem_filter.mp hn).1
    simpa [occupant?, hb, ho] using hocc fun n' hn' he => hkept ((Attachment.input.inj he).2 ▸ hn')
  · refine Option.eq_none_iff_forall_ne_some.mpr fun c hc => ?_
    have hocc := (occupant?_shed_iff h hb hshape hsame hcut hr (.input b.id n) hself).mp
      (by simpa [occupant?, ho] using hc)
    simp [occupant?, hb, h.target?_of_added hb hshape hn] at hocc
  · have hplain' : w.standIn c = false := by simp [standIn, hd, hplain]
    have hleft {x : BlockId} (hu : w.Under c x) := not_dropped_of_target h hb hc hplain' hu
    refine ⟨?_, fun x hu hne => ?_⟩
    · rw [find?_shed h hb hshape hsame hcut hr (ne_of_under_target h hb hc .self) (hleft .self),
        parent?_shed h hb hshape hsame hcut hr, hcut.free c hc, hd]
      rfl
    · exact find?_shed_of_kept h hb hshape hsame hcut hr (ne_of_under_target h hb hc hu) (hleft hu)
        fun hx => hne (target_eq h hb hc hx hu).symm
  · have hgone := hcut.gone x ⟨c, hc, hs, hu⟩
    rw [← hr.has] at hgone
    simpa [has] using hgone
  · refine find?_shed_of_kept h hb hshape hsame hcut hr hne ?_ fun hc => hx x hc .self
    rintro ⟨c, hc, -, hu⟩
    exact hx c hc hu

section switched

variable {connectors : Block → Connectors} {field name : String}

private theorem find?_switched (hb : w.find? id = some b) :
    (w.modify id fun d => d.switched (connectors d) field name).find? id =
      some (b.switched (connectors b) field name) := by
  rw [find?_modify (f := fun d => d.switched (connectors d) field name) fun _ => rfl, if_pos rfl, hb]
  rfl

private theorem parent?_switched {x : BlockId} :
    (w.modify id fun d => d.switched (connectors d) field name).parent? x = w.parent? x :=
  parent?_modify (fun _ => rfl) fun _ => rfl

private theorem occupant?_switched (place : Attachment) :
    (w.modify id fun d => d.switched (connectors d) field name).occupant? place =
      w.occupant? place :=
  occupant?_modify (f := fun d => d.switched (connectors d) field name) (fun _ => rfl)
    (fun _ _ => rfl) (fun _ => rfl) place

end switched

private theorem Sound.ensures_switch (h : Sound True typed w) (hb : w.find? b.id = some b)
    (hshape : w.shapes.get? b.type = some shape) {field name : String} {list : List VariantSpec}
    (hmut : shape.mutator = .variants field list)
    (ht : shape.transition b.mutation (.setVariant name) = .ok (m, diff)) :
    (applyEvent b.id (.setVariant name)).Ensures w
      (fun diff' w' => diff' = diff ∧ Switched shape field name b w w') fun _ _ => False := by
  rw [ensures_applyEvent_iff hb hshape, ht]
  have hm : m = .variant name := (Shape.transition_iff.mp ht).2.2.1
  obtain ⟨-, -, -, rfl⟩ := Shape.transition_eq_ok.mp ht
  subst hm
  have hlayout := Shape.layout_of_variants hmut b.mutation (.variant name)
  have hshown (fields : Fields) :
      showMutation shape (.variant name) fields = fields.insert field (.choice name) := by
    simp [showMutation, hmut]
  refine (h.ensures_applyDiff_shed hb hshape).mono (fun _ w' hs => ⟨rfl, ?_⟩) fun _ _ h' => h'
  by_cases hsame : shape.connectorsOf (.variant name) = shape.connectorsOf b.mutation
  · rw [if_pos hsame] at hs
    have hconnectors := hsame.trans (h.layout hb hshape).2.symm
    obtain rfl : w' = w.modify b.id fun d => d.switched d.connectors field name := by
      refine h.eq_modify hb hshape hlayout (.inl hsame) hs ?_
      rw [hshown, hconnectors]
      rfl
    refine ⟨⟨b.parent, b.next, ?_⟩, fun _ => rfl, fun hne => absurd hsame hne,
      fun hne => absurd hsame hne, fun hne => absurd hsame hne⟩
    rw [find?_switched hb, hconnectors]
    rfl
  · rw [if_neg hsame] at hs
    obtain ⟨b', hb', -, hs⟩ := hs
    have hu := h.unthreaded b.id
    obtain rfl : b' = { b with parent := none, next := none } := by
      have hself := hu.self
      rw [hb, hb'] at hself
      exact Option.some.inj hself
    have hnext : (w.healed b.id).occupant? (.next b.id) = none := by simp [occupant?, hb']
    obtain rfl : w' = (w.healed b.id).modify b.id
        (·.switched (shape.connectorsOf (.variant name)) field name) := by
      refine (h.healed b.id).sound.eq_modify hb' ?_ hlayout (.inr hnext) hs ?_
      · rw [hu.relinked.shapes]
        exact hshape
      · rw [hshown]
        rfl
    refine ⟨⟨none, none, find?_switched hb'⟩, fun he => absurd he hsame, fun _ => ⟨_, hu, rfl⟩,
      fun _ => ⟨?_, ?_⟩, fun _ q hq => ?_⟩
    · rw [parent?_switched, hu.parent?_self]
    · rw [occupant?_switched, hnext]
    · obtain ⟨d, hd⟩ := has_iff.mp (has_of_parent? ((h.linked.link _ _).mp hq))
      rw [parent?_switched]
      simp [parent?, hu.heir q hq, hd]

private theorem Edited.applyEvent (hw : Edited shapes w) (id : BlockId)
    (hevent : ∀ kinds, event ≠ .compose kinds) :
    Edited shapes ((Workspace.applyEvent id event).perform w).2 := by
  cases event with
  | setCount n => exact hw.act (.reshape id n)
  | setVariant name => exact hw.act (.setVariant id name)
  | compose kinds => exact absurd rfl (hevent kinds)

/-- An event that has been carried out leads from the new mutation to the same one again. -/
theorem Edited.enacts (hd : shapes.Declared) (hw : Edited shapes w)
    (hb : w.find? b.id = some b) (hshape : shapes.get? b.type = some shape)
    (hevent : ∀ kinds, event ≠ .compose kinds) {P : Mutation → LayoutDiff → Workspace → Prop}
    (hmade : ∀ m diff, shape.transition b.mutation event = .ok (m, diff) →
      (Workspace.applyEvent b.id event).Ensures w
        (fun diff' w' => diff' = diff ∧ P m diff w' ∧
          ∃ o, w'.find? b.id = some o ∧ o.type = b.type ∧ o.mutation = m) fun _ _ => False) :
    w.Enacts (Workspace.applyEvent b.id event) (shape.transition b.mutation event) P where
  made m diff ht := by
    obtain ⟨_, w', he, rfl, hP, o, ho, htype, rfl⟩ := (hmade m diff ht).exists_ok
    have hw' : Edited shapes w' := by
      have hafter := hw.applyEvent b.id hevent
      rwa [he] at hafter
    obtain ⟨shape', hshape', haccepts, -, hshows⟩ := (hw'.valid hd).blocks o (mem_of_find? ho).1
    obtain rfl : shape = shape' := by simpa [htype, hshape] using hshape'
    obtain ⟨-, hsupports, hm, -⟩ := Shape.transition_iff.mp ht
    have hagain : shape.transition o.mutation event =
        .ok (o.mutation, .between shape o.mutation (o.mutation.after event)) := by
      refine Shape.transition_iff.mpr ⟨haccepts, hsupports, ?_, rfl⟩
      rw [hm, Mutation.after_after]
    have h' : Sound True False w' := hw'.sound hd.distinct False.elim
    obtain ⟨again, w'', he', hempty, rfl⟩ := (h'.ensures_applyEvent_same ho
      (by rw [(hw'.valid hd).shapes, htype, hshape]) hagain hshows).exists_ok
    exact ⟨w'', he, hP, again, he', hempty⟩
  refused err ht := by
    have hrefused : (Workspace.applyEvent b.id event).Ensures w (fun _ _ => False)
        fun err' w' => err' = err ∧ w' = w := by
      rw [ensures_applyEvent_iff hb (by rwa [(hw.valid hd).shapes]), ht]
      exact ⟨rfl, rfl⟩
    obtain ⟨_, _, he, rfl, rfl⟩ := hrefused.exists_error
    exact he

/-- Another number of units, or another variant, is given to a block as the transition of its shape says. -/
theorem reshaped_and_switched (hd : shapes.Declared) (hw : Edited shapes w)
    (hb : w.find? b.id = some b) : ∃ shape, shapes.get? b.type = some shape ∧
      (∀ n, w.Enacts (reshape b.id n) (shape.transition b.mutation (.setCount n))
        fun m diff w' => ∃ o, Reshaped shape m diff b o w w') ∧
      ∀ name, w.Enacts (setVariant b.id name) (shape.transition b.mutation (.setVariant name))
        fun _ _ w' => ∃ field list, shape.mutator = .variants field list ∧
          Switched shape field name b w w' := by
  have h : Sound True False w := hw.sound hd.distinct False.elim
  obtain ⟨shape, hshape, -⟩ := (hw.valid hd).blocks b (mem_of_find? hb).1
  have hshape' : w.shapes.get? b.type = some shape := by rwa [(hw.valid hd).shapes]
  refine ⟨shape, hshape, fun n => hw.enacts hd hb hshape (by simp) fun m diff ht => ?_,
    fun name => hw.enacts hd hb hshape (by simp) fun m diff ht => ?_⟩
  · have hcount (m : Mutation) := (Shape.transition_iff.mp ht).2.1.connectorsOf_of_count m
    have hsame := (hcount m).trans (hcount b.mutation).symm
    refine (h.ensures_applyEvent_shed hb hshape' ht hsame).mono (fun _ w' ⟨he, hs⟩ => ⟨he, ?_⟩)
      fun _ _ h' => h'
    obtain ⟨-, -, -, rfl⟩ := Shape.transition_eq_ok.mp ht
    obtain ⟨o, hre⟩ := h.reshaped hb hshape' hsame hs
    exact ⟨⟨o, hre⟩, o, hre.found, by rw [hre.owner], by rw [hre.owner]⟩
  · obtain ⟨ha, hs, rfl, -⟩ := Shape.transition_iff.mp ht
    obtain ⟨field, list, hmut⟩ := hs.variants
    refine (h.ensures_switch hb hshape' hmut ht).mono (fun _ w' ⟨he, hsw⟩ => ⟨he, ?_⟩)
      fun _ _ h' => h'
    obtain ⟨parent, next, ho⟩ := hsw.self
    exact ⟨⟨field, list, hmut, hsw⟩, _, ho, rfl, rfl⟩

/-- A branch is taken from a choice: a stand-in was its condition, and what it printed is an element of a
list. Where that element is removed from the list instead, it is no expression any more. -/
theorem reshaped_and_switched_of_branches :
    let choice : BlockId := ⟨"choice"⟩
    let print : BlockId := ⟨"print"⟩
    let element : BlockId := ⟨"element"⟩
    let w := [Action.add choice "controls_if" false, .reshape choice 2,
      .add ⟨"flag"⟩ "logic_boolean" true, .connectValue choice "IF2" ⟨"flag"⟩,
      .add print "text_print" false, .connectStatement choice "DO2" print,
      .add element "lists_get_index" false, .connectValue print "TEXT" element].foldl Action.apply
        (.empty Python.standard.shapes)
    let diff : LayoutDiff :=
      { removed := ["IF2", "DO2"], added := [], kept := ["IF0", "DO0", "IF1", "DO1"]
        connectorsChanged := false }
    Python.standard.shapes.Declared ∧ Edited Python.standard.shapes w ∧
      (∃ b shape o w', w.find? choice = some b ∧ Python.standard.shapes.get? b.type = some shape ∧
        (reshape choice 1).perform w = (.ok diff, w') ∧
        Reshaped shape (.branches 1 false) diff b o w w' ∧ w'.has ⟨"flag"⟩ = false ∧
        w'.parent? print = none ∧ w'.parent? element = some (.input print "TEXT")) ∧
      ∃ b shape field w', w.find? element = some b ∧
        Python.standard.shapes.get? b.type = some shape ∧
        ((setVariant element "REMOVE").perform w).2 = w' ∧
        Switched shape field "REMOVE" b w w' ∧ w.parent? element = some (.input print "TEXT") ∧
        w'.parent? element = none := by
  intro choice print element w diff
  have hd := Python.standard_declared
  have hw : Edited Python.standard.shapes w := Edited.empty.run _
  refine ⟨hd, hw, ?_, ?_⟩
  · let b := (w.find? choice).get (by decide +kernel)
    have hb : w.find? b.id = some b := by decide +kernel
    have hid : b.id = choice := by decide +kernel
    obtain ⟨shape, hshape, hcount, -⟩ := reshaped_and_switched hd hw hb
    have ht : shape.transition b.mutation (.setCount 1) = .ok (.branches 1 false, diff) := by
      obtain rfl := Option.get_of_eq_some (by decide +kernel) hshape
      decide +kernel
    obtain ⟨w', he, ⟨o, hre⟩, -⟩ := (hcount 1).made _ _ ht
    refine ⟨b, shape, o, w', hid ▸ hb, hshape, hid ▸ he, hre, ?_⟩
    obtain rfl : ((reshape choice 1).perform w).2 = w' := by rw [← hid, he]
    decide +kernel
  · let b := (w.find? element).get (by decide +kernel)
    have hb : w.find? b.id = some b := by decide +kernel
    have hid : b.id = element := by decide +kernel
    obtain ⟨shape, hshape, -, hvariant⟩ := reshaped_and_switched hd hw hb
    have ht : shape.transition b.mutation (.setVariant "REMOVE") = .ok (.variant "REMOVE",
        { removed := [], added := [], kept := ["VALUE", "AT"], connectorsChanged := true }) := by
      obtain rfl := Option.get_of_eq_some (by decide +kernel) hshape
      decide +kernel
    obtain ⟨w', he, ⟨field, -, -, hsw⟩, -⟩ := (hvariant "REMOVE").made _ _ ht
    obtain rfl : ((setVariant element "REMOVE").perform w).2 = w' := by rw [← hid, he]
    exact ⟨b, shape, field, _, hid ▸ hb, hshape, rfl, hsw, by decide +kernel, by decide +kernel⟩

/-- A field that counts the units is another part of a block that is changed by reshaping it. -/
theorem reshape_shows_count :
    let zeros : BlockId := ⟨"zeros"⟩
    let w := (Action.add zeros "ndarray_zeros" false).apply (.empty Python.standard.shapes)
    let w' := ((reshape zeros 3).perform w).2
    Edited Python.standard.shapes w ∧ ∃ diff, ((reshape zeros 3).perform w).1 = .ok diff ∧
      ∃ b o, w.find? zeros = some b ∧ w'.find? zeros = some o ∧
        b.fields.get? "DIMS" = some (.number (.ofNat 1)) ∧
        o.fields.get? "DIMS" = some (.number (.ofNat 3)) := by
  intro zeros w w'
  let b := (w.find? zeros).get (by decide +kernel)
  let o := (w'.find? zeros).get (by decide +kernel)
  exact ⟨.act .empty _, { removed := [], added := ["DIM1", "DIM2"], kept := ["DIM0"]
                          connectorsChanged := false }, by decide +kernel, b, o,
    (Option.some_get _).symm, (Option.some_get _).symm, by decide +kernel, by decide +kernel⟩

end Workspace

end BlockProgram
