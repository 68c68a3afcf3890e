import BlockProgram.Proofs.Workspace.Eviction
import BlockProgram.Proofs.Workspace.Forest

/-! An edit of a forest that is refused has changed nothing. Checks come first, but the steps after them
look blocks up again, some of them when a stand-in is already deleted with all that was beneath it. In a
forest whatever is looked up then is still there. -/
namespace BlockProgram

open Edit

/-- If the edit is refused, nothing has changed, and the reason is of the given kind. -/
def Edit.Declines {ε α : Type} (e : Edit ε α) (w : Workspace) (why : ε → Prop) : Prop :=
  ∀ err w', e.perform w = (.error err, w') → w' = w ∧ why err

theorem Edit.Ensures.declines {ε α : Type} {e : Edit ε α} {w : Workspace} {why : ε → Prop}
    {ok : α → Workspace → Prop} (h : e.Ensures w ok fun err w' => w' = w ∧ why err) :
    e.Declines w why := fun _ _ he => h.of_error he

theorem Edit.Declines.perform_eq {ε α : Type} {e : Edit ε α} {w : Workspace} {why : ε → Prop}
    {err : ε} (h : e.Declines w why) (he : (e.perform w).1 = .error err) :
    e.perform w = (.error err, w) := by
  have hpair : e.perform w = (.error err, (e.perform w).2) := Prod.ext he rfl
  rw [hpair, (h err _ hpair).1]

namespace Workspace

variable {typed : Prop} {w : Workspace} {id : BlockId} {b : Block} {shape : Shape} {m : Mutation}

private theorem Unknown.declined {err : EditError} {w' : Workspace} (h : w.Unknown id err w') :
    w' = w ∧ err = .unknownBlock id ∧ ¬ w.has id := ⟨h.2.2, h.1, h.2.1⟩

/-- The reasons not to reshape a block: there is none of that id, or its shape has no such transition. -/
def Immutable (w : Workspace) (id : BlockId) (event : Mutation.Event) (err : MutationError) : Prop :=
  err = .edit (.unknownBlock id) ∧ ¬ w.has id ∨
    ∃ b shape, w.find? id = some b ∧ w.shapes.get? b.type = some shape ∧
      shape.transition b.mutation event = .error err

theorem Sound.ensures_applyEvent_forest (h : Sound True typed w) (id : BlockId)
    (event : Mutation.Event) : (applyEvent id event).Ensures w
      (fun _ => w.Evicts (w.unhoused id event)) fun err w' => w' = w ∧ w.Immutable id event err := by
  refine Workspace.ensures_applyEvent (fun hb => ⟨rfl, .inl ⟨rfl, by simp [has, hb]⟩⟩)
    (fun b hb hshape => ?_) (fun b shape err hb hshape ht => ⟨rfl, .inr ⟨b, shape, hb, hshape, ht⟩⟩)
    fun b shape m diff hb hshape ht => ?_
  · obtain ⟨shape, hshape', -⟩ := h.shaped id b.bare (bare?_of_find? hb)
    cases hshape.symm.trans hshape'
  · have hunhoused : w.unhoused id event = b.targetsAt diff.removed := by
      simp [unhoused, hb, hshape, ht]
    obtain ⟨-, -, -, rfl⟩ := Shape.transition_eq_ok.mp ht
    rw [hunhoused]
    exact (h.ensures_applyDiff_forest hb hshape).mono (fun _ _ h' => h') fun _ _ h' => h'.elim

theorem Sound.ensures_setField_forest (h : Sound True typed w) (id : BlockId) (name : String)
    (value : FieldValue) : (setField id name value).Ensures w
      (fun _ w' => w.Evicts (w.unhousedByField id name value) w') fun _ w' => w' = w := by
  refine Workspace.ensures_setField (fun b shape event hb hshape he => ?_)
    (fun b shape hb hshape _ hplain => ?_) fun _ => rfl
  · have hunhoused : w.unhousedByField id name value = w.unhoused id event := by
      simp [unhousedByField, hb, hshape, he]
    rw [hunhoused]
    exact (h.ensures_applyEvent_forest id event).mono (fun _ _ h' => h') fun _ _ h' => h'.1
  · have hunhoused : w.unhousedByField id name value = [] := by
      simp [unhousedByField, hb, hshape, Shape.fieldEvent?_eq_none hplain]
    rw [hunhoused]
    exact .of_has fun x => has_modify (f := fun b => { b with fields := b.fields.insert name value })
      fun _ => rfl

/-- The planned blocks are plugged in, be it in a circle or where they do not fit. -/
theorem Sound.ensures_replant_forest (h : Sound True typed w) {s : Satellite}
    (hc : Composable s w b shape m) : (replant s.owner shape m (s.planned w)).Ensures w
      (fun _ => w.Evicts (w.unhousedByUnits s)) fun _ _ => False := by
  have hdistinct := h.distinct shape (ShapeRegistry.mem_of_get? hc.known).1
  have hre : ∀ p ∈ s.planned w, w.reattachable p.2 s.owner := fun p hp =>
    (mem_plan (hc.planned ▸ hp)).2
  refine h.ensures_replant_of_uprooted hc.owner hc.known hre fun w1 w2 w3 hup => ?_
  have hevicts : w.Evicts (w.unhousedByUnits s) w3 := by
    refine Evicts.congr (show w.Evicts (w.unhousedByUnits s) w1 from ?_) fun x => ?_
    · have hunits : w.unhousedByUnits s =
          b.unitTargets.filter fun c => !(s.planned w).any fun p => p.2 = c := by
        simp [unhousedByUnits, hc.owner]
      rw [hunits]
      exact hup.cut.evicts fun _ => dropped_spare
    · rw [hup.rebuilt.has, has_congr hup.freed.bare_of_kept]
  refine (ensures_forM (I := fun rest w' => w.Evicts (w.unhousedByUnits s) w' ∧ ∀ p ∈ rest,
    w'.has p.2 ∧ w'.offers (.input s.owner p.1)) ?_ (s.planned w) w3
      ⟨hevicts, fun p hp => ⟨?_, ?_⟩⟩).mono (fun _ _ h' => h'.1) fun _ _ h' => h'
  · rintro p rest w' ⟨he, hrest⟩
    have hp := hrest p (by simp)
    refine Workspace.ensures_attachInput hp.1
      (fun _ => ⟨he.congr fun _ => has_attached, fun q hq => ?_⟩) fun hno => absurd hp.2 hno
    rw [has_attached, offers_congr bare?_attached]
    exact hrest q (List.mem_cons_of_mem _ hq)
  · rw [hup.rebuilt.has]
    exact (hup.cleared.free p hp).1
  · exact (hc.plan hdistinct).offers hdistinct hup.root hup.rebuilt hp

theorem Sound.ensures_compose_forest (h : Sound True typed w) (s : Satellite) :
    (compose s).Ensures w (fun _ => w.Evicts (w.unhousedByUnits s)) fun _ w' => w' = w :=
  Workspace.ensures_compose (fun _ _ _ hc => (h.ensures_replant_forest hc).mono (fun _ _ h' => h')
    fun _ _ h' => h'.elim) fun _ => rfl

/-- Every edit that is refused leaves the workspace as it is. Taking a block out is refused only where
there is no such block, and reshaping only there or where the shape refuses the transition. -/
structure Unspoiled (w : Workspace) : Prop where
  add : ∀ id type shadow, (add id type shadow).Declines w fun _ => True
  delete : ∀ id heal, (delete id heal).Declines w fun err => err = .unknownBlock id ∧ ¬ w.has id
  setField : ∀ id name value, (setField id name value).Declines w fun _ => True
  connectValue : ∀ p s c, (connectValue p s c).Declines w fun _ => True
  connectStatement : ∀ p s c, (connectStatement p s c).Declines w fun _ => True
  connectNext : ∀ p c, (connectNext p c).Declines w fun _ => True
  disconnect : ∀ id, (disconnect id).Declines w fun err => err = .unknownBlock id ∧ ¬ w.has id
  unplug : ∀ id heal, (unplug id heal).Declines w fun err => err = .unknownBlock id ∧ ¬ w.has id
  reshape : ∀ id count, (reshape id count).Declines w (w.Immutable id (.setCount count))
  setVariant : ∀ id variant, (setVariant id variant).Declines w (w.Immutable id (.setVariant variant))
  compose : ∀ s, (compose s).Declines w fun _ => True
  load : ∀ text, (load text).Declines w fun _ => True

private theorem ensures_add (id : BlockId) (type : String) (shadow : Bool) :
    (add id type shadow).Ensures w (fun _ _ => True) fun _ w' => w' = w := by
  unfold add
  rw [ensures_bind, ensures_get]
  by_cases hid : w.has id
  · rw [if_pos hid]
    rfl
  · rw [if_neg hid]
    cases w.shapes.get? type with
    | none => rfl
    | some shape => trivial

private theorem ensures_load (text : String) :
    (load text).Ensures w (fun _ _ => True) fun _ w' => w' = w := by
  unfold load
  rw [ensures_bind, ensures_get]
  cases ofJson w.shapes text with
  | error err => rfl
  | ok loaded => trivial

/-- Edits lead to workspaces where a refusal spoils nothing. -/
theorem refused_unchanged {shapes : ShapeRegistry} (hd : shapes.Distinct) (h : Edited shapes w) :
    w.Unspoiled := by
  have hs : Sound True False w := h.sound hd False.elim
  have hsame {ε α : Type} {e : Edit ε α} {ok : α → Workspace → Prop}
      (he : e.Ensures w ok fun _ w' => w' = w) : e.Declines w fun _ => True :=
    (he.mono (fun _ _ h' => h') fun _ _ h' => ⟨h', trivial⟩).declines
  have hunknown {α : Type} {e : Edit EditError α} {ok : α → Workspace → Prop} {id : BlockId}
      (he : e.Ensures w ok (w.Unknown id)) :
      e.Declines w fun err => err = .unknownBlock id ∧ ¬ w.has id :=
    (he.mono (fun _ _ h' => h') fun _ _ h' => h'.declined).declines
  exact
    { add := fun id type shadow => hsame (ensures_add id type shadow)
      delete := fun id heal => hunknown (hs.ensures_delete id heal)
      setField := fun id name value => hsame (hs.ensures_setField_forest id name value)
      connectValue := fun p s c => hsame
        ((hs.ensures_connectValue p s c).mono (fun _ _ h' => h') fun _ _ h' => h'.2 trivial)
      connectStatement := fun p s c => hsame (hs.ensures_connectStatement p s c)
      connectNext := fun p c => hsame (hs.ensures_connectNext p c)
      disconnect := fun id => hunknown (hs.ensures_disconnect id)
      unplug := fun id heal => hunknown (hs.ensures_unplug heal)
      reshape := fun id count => (hs.ensures_applyEvent_forest id (.setCount count)).declines
      setVariant := fun id variant => (hs.ensures_applyEvent_forest id (.setVariant variant)).declines
      compose := fun s => hsame (hs.ensures_compose_forest s)
      load := fun text => hsame (ensures_load text) }

/-- A list in a list: the outer one does not go into the inner one, and lists have no variants. -/
theorem refused_unchanged_of_nested :
    let w := [Action.add ⟨"outer"⟩ "lists_create_with" false,
      .add ⟨"inner"⟩ "lists_create_with" false,
      .connectValue ⟨"outer"⟩ "ITEM0" ⟨"inner"⟩].foldl Action.apply (.empty Python.standard.shapes)
    Python.standard.shapes.Distinct ∧ Edited Python.standard.shapes w ∧ w.Unspoiled ∧
      (connectValue ⟨"inner"⟩ "ITEM1" ⟨"outer"⟩).perform w =
        (.error (.cycle ⟨"inner"⟩ ⟨"outer"⟩), w) ∧
      (setVariant ⟨"outer"⟩ "REMOVE").perform w =
        (.error (.unsupported "lists_create_with" .variantSwitching), w) := by
  intro w
  have hw : Edited Python.standard.shapes w := Edited.empty.run _
  have hspared := refused_unchanged Python.standard_distinct hw
  exact ⟨Python.standard_distinct, hw, hspared,
    (hspared.connectValue _ _ _).perform_eq (by decide +kernel),
    (hspared.setVariant _ _).perform_eq (by decide +kernel)⟩

end Workspace

end BlockProgram
