import BlockProgram.Proofs.Shape.Declared
import BlockProgram.Proofs.Workspace.Edit

/-! A block that takes another mutation keeps what the sockets of both layouts hold, so reshaping keeps a
workspace sound. Which blocks are severed on the way is decided before the layout changes. -/
namespace BlockProgram

open Edit

/-- What the first socket of the given name holds. -/
private def held (name : String) (l : List Socket) : Option BlockId :=
  (l.find? fun s => s.name = name).bind (·.target)

namespace Workspace

section carry

variable {old k : Socket} {target : BlockId} {keep : Bool} {fresh olds : List Socket}
  {name : String}

private theorem carry_eq (hn : (fresh.map (·.name)).Nodup) (hk : k ∈ fresh)
    (hname : k.name = old.name) (hkind : k.kind = old.kind) (hs : keep ∨ k.structural = false) :
    carry old target keep fresh = some (Block.retarget old.name (some target) fresh) := by
  induction fresh with
  | nil => simp at hk
  | cons s rest ih =>
    obtain ⟨hfirst, hrest⟩ := List.nodup_cons.mp hn
    unfold carry Block.retarget
    by_cases he : s.name = old.name
    · have hsk : s = k := by
        rcases List.mem_cons.mp hk with rfl | hk
        · rfl
        · exact absurd (List.mem_map.mpr ⟨k, hk, hname.trans he.symm⟩) hfirst
      subst hsk
      rw [if_pos ⟨he, hkind, by simpa using hs⟩, if_pos he]
    · have hk' : k ∈ rest := by
        rcases List.mem_cons.mp hk with rfl | hk
        · exact absurd hname he
        · exact hk
      rw [if_neg (fun h => he h.1), if_neg he, ih hrest hk']
      rfl

private theorem held_eq_none (h : name ∉ olds.map (·.name)) : held name olds = none := by
  unfold held
  rw [List.find?_eq_none.mpr fun s hs => by simpa using fun he => h (List.mem_map.mpr ⟨s, hs, he⟩)]
  rfl

private theorem held_retarget (h : name ∈ fresh.map (·.name)) (n : String) :
    held n (Block.retarget name (some target) fresh) =
      if n = name then some target else held n fresh := by
  unfold held
  rw [Block.find?_retarget]
  split
  · rename_i he
    obtain ⟨s, hs, hname⟩ := List.mem_map.mp h
    obtain ⟨k, hk⟩ := Option.isSome_iff_exists.mp
      (List.find?_isSome.mpr ⟨s, hs, by simp [he, hname]⟩ :
        (fresh.find? fun s => s.name = n).isSome)
    simp [hk]
  · rfl

private theorem carryAll_eq (ho : (olds.map (·.name)).Nodup) (hn : (fresh.map (·.name)).Nodup)
    (h : ∀ s ∈ olds, s.target.isSome → ∃ k ∈ fresh.map Socket.emptied,
      k.name = s.name ∧ k.kind = s.kind ∧ (keep ∨ k.structural = false)) :
    ∃ out, carryAll keep olds fresh = (out, []) ∧
      out.map Socket.emptied = fresh.map Socket.emptied ∧
      ∀ n, held n out = (held n olds).or (held n fresh) := by
  induction olds generalizing fresh with
  | nil => exact ⟨fresh, rfl, rfl, fun n => rfl⟩
  | cons s rest ih =>
    obtain ⟨hfirst, hrest⟩ := List.nodup_cons.mp ho
    -- the name does not come again, so what is carried over for it stays
    have hgone : held s.name rest = none := held_eq_none hfirst
    have hcons (n : String) : held n (s :: rest) = if s.name = n then s.target else held n rest := by
      unfold held
      by_cases he : s.name = n <;> simp [he]
    unfold carryAll
    cases ht : s.target with
    | none =>
      obtain ⟨out, hout, hemptied, hheld⟩ := ih hrest hn fun t hm => h t (List.mem_cons_of_mem _ hm)
      refine ⟨out, hout, hemptied, fun n => ?_⟩
      rw [hheld, hcons]
      split
      · rename_i he
        simp [ht, ← he, hgone]
      · rfl
    | some target =>
      obtain ⟨k, hk, hname, hkind, hs⟩ := h s (by simp) (by simp [ht])
      obtain ⟨k', hk', rfl⟩ := List.mem_map.mp hk
      have hemptied' := Block.map_emptied_retarget s.name (some target) fresh
      have hn' : ((Block.retarget s.name (some target) fresh).map (·.name)).Nodup := by
        rwa [Socket.map_name_of_emptied hemptied']
      obtain ⟨out, hout, hemptied, hheld⟩ := ih hrest hn'
        (hemptied' ▸ fun t hm => h t (List.mem_cons_of_mem _ hm))
      simp only [carry_eq hn hk' hname hkind hs]
      refine ⟨out, hout, hemptied.trans hemptied', fun n => ?_⟩
      rw [hheld, hcons, held_retarget (List.mem_map.mpr ⟨k', hk', hname⟩)]
      by_cases he : s.name = n
      · simp [← he, ht, hgone]
      · simp [he, Ne.symm he]

end carry

end Workspace

def Block.reshaped (b : Block) (shape : Shape) (m : Mutation) : Block :=
  { b with
    sockets := shape.layout m
    connectors := shape.connectorsOf m
    fields := Workspace.showMutation shape m b.fields
    mutation := m }

/-- What setting a field asks for, if the field shows the mutation. -/
def Shape.fieldEvent? (shape : Shape) (name : String) (value : FieldValue) : Option Mutation.Event :=
  match shape.mutator with
  | .variants field _ =>
    if field = name then some (.setVariant (value.string?.getD "")) else none
  | .repeats spec =>
    if spec.countField = some name then
      (Workspace.unitCount? (value.number?.getD .zero)).map .setCount
    else none
  | _ => none

theorem Shape.fieldEvent?_eq_none {shape : Shape} {name : String} {value : FieldValue}
    (h : ∀ m v, shape.mirror m ≠ some (name, v)) : shape.fieldEvent? name value = none := by
  unfold fieldEvent?
  unfold mirror at h
  cases hmut : shape.mutator with
  | fixed => rfl
  | branches => rfl
  | variants field list =>
    have hne : field ≠ name := by simpa [hmut] using h (.variant "")
    exact if_neg hne
  | repeats spec =>
    have hne : spec.countField ≠ some name := by simpa [hmut] using h (.items 0)
    exact if_neg hne

namespace Workspace

variable {rooted typed : Prop} {w w' : Workspace} {id x c : BlockId} {b : Block} {shape : Shape}
  {m : Mutation} {keep : Bool}

/-- `w'` is `w` with a block rebuilt: every block stays in its place, except that one which may no
longer follow is free. -/
structure Rebuilt (w : Workspace) (id : BlockId) (shape : Shape) (m : Mutation) (w' : Workspace) :
    Prop where
  shapes : w'.shapes = w.shapes
  ids : w'.ids = w.ids
  bare : ∀ x, w'.bare? x =
    if x = id then (w.bare? x).map (·.reshaped shape m) else w.bare? x
  parent : ∀ x, w'.parent? x =
    if w.parent? x = some (.next id) ∧ (shape.connectorsOf m).next = false then none
    else w.parent? x
  occupant : ∀ q, w'.occupant? q =
    if q = .next id ∧ (shape.connectorsOf m).next = false then none else w.occupant? q

private def refit (shape : Shape) (m : Mutation) (sockets : List Socket) (b : Block) : Block :=
  { b with
    sockets
    connectors := shape.connectorsOf m
    fields := showMutation shape m b.fields
    mutation := m }

private theorem find?_refit {sockets : List Socket} :
    (w.modify id (refit shape m sockets)).find? x =
      if x = id then (w.find? x).map (refit shape m sockets) else w.find? x :=
  find?_modify fun _ => rfl

private theorem ids_refit {sockets : List Socket} :
    (w.modify id (refit shape m sockets)).ids = w.ids := ids_modify fun _ => rfl

private theorem parent?_refit {sockets : List Socket} :
    (w.modify id (refit shape m sockets)).parent? x = w.parent? x :=
  parent?_modify (fun _ => rfl) fun _ => rfl

private theorem bare?_refit {sockets : List Socket}
    (hemptied : sockets.map Socket.emptied = shape.layout m) :
    (w.modify id (refit shape m sockets)).bare? x =
      if x = id then (w.bare? x).map (·.reshaped shape m) else w.bare? x := by
  simp only [bare?, find?_refit]
  split
  · cases w.find? x with
    | none => rfl
    | some d => simp [Block.bare, Block.reshaped, refit, hemptied]
  · rfl

private theorem occupant?_refit {sockets : List Socket} (hb : w.find? id = some b)
    (hheld : ∀ n, held n sockets = b.target? n) {q : Attachment} :
    (w.modify id (refit shape m sockets)).occupant? q = w.occupant? q := by
  cases q with
  | input p s =>
    simp only [occupant?, find?_refit]
    split
    · rename_i hp
      simp only [hp, hb, Option.map_some, Option.bind_some]
      exact hheld s
    · rfl
  | next p =>
    simp only [occupant?, find?_refit]
    split
    · rename_i hp
      simp [hp, hb, refit]
    · rfl

private theorem Linked.refit {sockets : List Socket} (h : w.Linked) (hb : w.find? id = some b)
    (hdistinct : shape.Distinct) (hemptied : sockets.map Socket.emptied = shape.layout m)
    (hheld : ∀ n, held n sockets = b.target? n) :
    (w.modify id (refit shape m sockets)).Linked where
  nodup := by
    rw [ids_refit]
    exact h.nodup
  names x d hd := by
    rw [bare?_refit hemptied] at hd
    split at hd
    · obtain ⟨_, _, rfl⟩ := Option.map_eq_some_iff.mp hd
      exact hdistinct m
    · exact h.names x d hd
  link q c := by
    rw [occupant?_refit hb hheld, parent?_refit, h.link]

/-- If all links stay and the sockets are the same, only one block has changed. -/
theorem Linked.eq_modify (h : w.Linked) (h' : w'.Linked) (hs : w'.shapes = w.shapes)
    (hi : w'.ids = w.ids) (hb : w.find? id = some b) (hdistinct : shape.Distinct)
    (hlayout : b.sockets.map Socket.emptied = shape.layout m)
    (hbare : ∀ x, w'.bare? x = if x = id then (w.bare? x).map (·.reshaped shape m) else w.bare? x)
    (hparent : ∀ x, w'.parent? x = w.parent? x) {f : Block → Block}
    (hf : f b = { b with
      connectors := shape.connectorsOf m
      fields := showMutation shape m b.fields
      mutation := m }) : w' = w.modify id f := by
  have hrefit : w' = w.modify id (Workspace.refit shape m b.sockets) :=
    (h.refit hb hdistinct hlayout fun _ => rfl).ext h' hs (hi.trans ids_refit.symm)
      (fun x => (hbare x).trans (bare?_refit hlayout).symm)
      fun x => (hparent x).trans parent?_refit.symm
  rw [hrefit]
  exact modify_congr h.nodup hb hf.symm

/-- A block in the form of another mutation, with its links. -/
theorem exists_reshaped (h : w.bare? id = some (b.bare.reshaped shape m)) :
    ∃ o, w.find? id = some o ∧ o.sockets.map Socket.emptied = shape.layout m ∧
      o = { b with
        sockets := o.sockets, connectors := shape.connectorsOf m, mutation := m
        fields := showMutation shape m b.fields
        parent := w.parent? id, next := w.occupant? (.next id) } := by
  obtain ⟨o, ho, he⟩ := Option.map_eq_some_iff.mp h
  have hparent : w.parent? id = o.parent := by simp [parent?, ho]
  have hnext : w.occupant? (.next id) = o.next := by simp [occupant?, ho]
  refine ⟨o, ho, congrArg Block.sockets he, ?_⟩
  rw [hparent, hnext]
  cases o
  cases b
  simp_all [Block.bare, Block.reshaped]

/-- The sockets and connectors of a block are those that its shape has for its mutation. -/
theorem Sound.layout (h : Sound rooted typed w) (hb : w.find? id = some b)
    (hshape : w.shapes.get? b.type = some shape) :
    b.sockets.map Socket.emptied = shape.layout b.mutation ∧
      b.connectors = shape.connectorsOf b.mutation := by
  obtain ⟨shape', hshape', hlayout, hconn⟩ := h.shaped id b.bare (bare?_of_find? hb)
  cases Option.some.inj (hshape.symm.trans hshape')
  exact ⟨hlayout, hconn⟩

private theorem Sound.carries (h : Sound rooted typed w) (hb : w.find? id = some b)
    (hshape : w.shapes.get? b.type = some shape)
    (hkeep : ∀ s q, w.occupant? (.input id s) = some q → ∃ k ∈ shape.layout m,
      k.name = s ∧ (keep ∨ k.structural = false)) :
    ∃ sockets, carryAll keep b.sockets (shape.layout m) = (sockets, []) ∧
      sockets.map Socket.emptied = shape.layout m ∧ ∀ n, held n sockets = b.target? n := by
  have hdistinct := h.distinct shape (ShapeRegistry.mem_of_get? hshape).1
  have hlayout := (h.layout hb hshape).1
  have hnames := h.linked.socket_names hb
  have hsuccessor : ∀ s ∈ b.sockets, s.target.isSome → ∃ k ∈ (shape.layout m).map Socket.emptied,
      k.name = s.name ∧ k.kind = s.kind ∧ (keep ∨ k.structural = false) := by
    intro s hs ht
    obtain ⟨q, hq⟩ := Option.isSome_iff_exists.mp ht
    obtain ⟨k, hk, hname, hstruct⟩ := hkeep s.name q
      (occupant?_of_socket? hb (Block.socket?_of_mem hnames hs) hq)
    have hsame : k = s.emptied := hdistinct.agree hk (hlayout ▸ List.mem_map_of_mem hs) hname
    rw [shape.map_emptied_layout]
    exact ⟨k, hk, hname, by rw [hsame]; rfl, hstruct⟩
  obtain ⟨sockets, hcarry, hemptied, hheld⟩ := carryAll_eq hnames (hdistinct m) hsuccessor
  have hfresh (n : String) : held n (shape.layout m) = none := by
    unfold held
    cases hk : (shape.layout m).find? fun s => s.name = n with
    | none => rfl
    | some k => exact shape.target_of_mem_layout (List.mem_of_find?_eq_some hk)
  refine ⟨sockets, hcarry, hemptied.trans (shape.map_emptied_layout m), fun n => ?_⟩
  rw [hheld, hfresh, Option.or_none]
  rfl

private theorem Linked.follower_iff (h : w.Linked) (hb : w.find? id = some b) :
    w.parent? c = some (.next id) ↔ b.next = some c := by
  rw [← h.link]
  simp [occupant?, hb]

private theorem Linked.rebuilt_refit (h : w.Linked) (hb : w.find? id = some b)
    {sockets : List Socket} (hemptied : sockets.map Socket.emptied = shape.layout m)
    (hheld : ∀ n, held n sockets = b.target? n)
    (hnext : b.next = none ∨ (shape.connectorsOf m).next = true) :
    Rebuilt w id shape m (w.modify id (Workspace.refit shape m sockets)) := by
  refine ⟨rfl, ids_refit, fun _ => bare?_refit hemptied, fun x => ?_, fun q => ?_⟩
  · rw [parent?_refit]
    split
    · rename_i he
      rcases hnext with hnone | htrue
      · have hx := (h.follower_iff hb).mp he.1
        simp [hnone] at hx
      · simp [htrue] at he
    · rfl
  · rw [occupant?_refit hb hheld]
    split
    · rename_i he
      rcases hnext with hnone | htrue
      · simp [he.1, occupant?, hb, hnone]
      · simp [htrue] at he
    · rfl

private theorem Linked.rebuilt_detached (h : w.Linked) (hb : w.find? id = some b)
    (hdistinct : shape.Distinct) {sockets : List Socket}
    (hemptied : sockets.map Socket.emptied = shape.layout m)
    (hheld : ∀ n, held n sockets = b.target? n) (hc : b.next = some c)
    (hnext : (shape.connectorsOf m).next = false) :
    Rebuilt w id shape m ((w.modify id (Workspace.refit shape m sockets)).detached c) := by
  have hlinked := h.refit hb hdistinct hemptied hheld
  have hpar := (h.follower_iff hb).mpr hc
  refine ⟨by simp [modify], by simp [ids_refit], by simpa using fun _ => bare?_refit hemptied,
    fun x => ?_, fun place => ?_⟩
  · rw [parent?_detached, parent?_refit]
    by_cases hx : x = c
    · simp [hx, hpar, hnext]
    · simp [hx, h.follower_iff hb, hc, Ne.symm hx]
  · have hiff : w.occupant? place = some c ↔ place = .next id := by
      rw [h.link, hpar]
      exact ⟨fun he => (Option.some.inj he).symm, fun he => he ▸ rfl⟩
    rw [hlinked.occupant?_detached, occupant?_refit hb hheld]
    simp [hiff, hnext]

/-- A block is rebuilt if whatever it holds has a successor for its socket. -/
theorem Sound.ensures_rebuild (h : Sound rooted typed w) (hb : w.find? id = some b)
    (hshape : w.shapes.get? b.type = some shape)
    (hkeep : ∀ s q, w.occupant? (.input id s) = some q → ∃ k ∈ shape.layout m,
      k.name = s ∧ (keep ∨ k.structural = false))
    {refused : EditError → Workspace → Prop} :
    (rebuild id shape m keep).Ensures w (fun _ => Rebuilt w id shape m) refused := by
  obtain ⟨sockets, hcarry, hemptied, hheld⟩ := h.carries hb hshape hkeep
  have hdistinct := h.distinct shape (ShapeRegistry.mem_of_get? hshape).1
  unfold rebuild
  simp only [ensures_bind, ensures_require, hb, hcarry]
  change (update id (refit shape m sockets)).Ensures w _ _
  rw [ensures_update, hb]
  dsimp only
  split
  case isFalse hnext =>
    exact h.linked.rebuilt_refit hb hemptied hheld (.inr (by simpa using hnext))
  rename_i hnext
  rw [ensures_bind, ensures_require, find?_refit, if_pos rfl, hb]
  dsimp only [Option.map_some]
  rw [show (refit shape m sockets b).next = b.next from rfl]
  cases hq : b.next with
  | none => exact h.linked.rebuilt_refit hb hemptied hheld (.inl hq)
  | some q =>
    have hid (b : Block) : (refit shape m sockets b).id = b.id := rfl
    have hhas : (w.modify id (refit shape m sockets)).has q :=
      (has_modify hid).trans (has_of_parent? ((h.linked.follower_iff hb).mpr hq))
    obtain ⟨d, hd⟩ := has_iff.mp hhas
    rw [(h.linked.refit hb hdistinct hemptied hheld).ensures_detach, hd]
    exact h.linked.rebuilt_detached hb hdistinct hemptied hheld hq (by simpa using hnext)

namespace Rebuilt

theorem has (h : Rebuilt w id shape m w') : w'.has x = w.has x := by
  rw [Bool.eq_iff_iff, has_iff_mem_ids, has_iff_mem_ids, h.ids]

theorem self (h : Rebuilt w id shape m w') (hb : w.bare? id = some b) :
    w'.bare? id = some (b.reshaped shape m) := by
  rw [h.bare, if_pos rfl, hb]
  rfl

theorem other (h : Rebuilt w id shape m w') (hx : x ≠ id) : w'.bare? x = w.bare? x := by
  rw [h.bare, if_neg hx]

theorem parent_of (h : Rebuilt w id shape m w') {place : Attachment}
    (hp : w'.parent? x = some place) :
    w.parent? x = some place ∧ (place = .next id → (shape.connectorsOf m).next) := by
  rw [h.parent] at hp
  split at hp
  · cases hp
  · rename_i hcut
    refine ⟨hp, fun he => ?_⟩
    simpa [hp, he] using hcut

/-- A rebuilt block keeps both ends of every link in step. -/
theorem linked (h : Rebuilt w id shape m w') (hl : w.Linked) (hd : shape.Distinct) :
    w'.Linked where
  nodup := h.ids ▸ hl.nodup
  names x d hx := by
    rw [h.bare] at hx
    split at hx
    · obtain ⟨_, _, rfl⟩ := Option.map_eq_some_iff.mp hx
      exact hd m
    · exact hl.names x d hx
  link q c := by
    rw [h.occupant, h.parent]
    have := hl.link q c
    by_cases hq : q = .next id <;> by_cases hn : (shape.connectorsOf m).next = false <;>
      by_cases hc : w.parent? c = some (.next id) <;> simp_all [Ne.symm]

end Rebuilt

section rebuilt

variable {place : Attachment} (h : Sound rooted typed w) (hb : w.bare? id = some b)
  (hshape : w.shapes.get? b.type = some shape) (hr : Rebuilt w id shape m w')
  (hfree : shape.connectorsOf b.mutation ≠ shape.connectorsOf m →
    ∀ place, w.parent? id = some place → place = .next id)
include h hb hshape hr hfree

/-- A block that stands in a place keeps its connectors, or it is the rebuilt one and stands after itself. -/
theorem Sound.exists_rebuilt {d : Block} (hp : w.parent? c = some place)
    (hd : w.bare? c = some d) : ∃ d', w'.bare? c = some d' ∧
      (d'.connectors = d.connectors ∨ c = id ∧ place = .next id ∧
        d'.connectors = shape.connectorsOf m ∧
          shape.connectorsOf b.mutation ≠ shape.connectorsOf m) := by
  by_cases hc : c = id
  · subst hc
    cases Option.some.inj (hb.symm.trans hd)
    obtain ⟨shape', hshape', -, hconn⟩ := h.shaped c b hb
    cases Option.some.inj (hshape.symm.trans hshape')
    refine ⟨_, hr.self hb, ?_⟩
    by_cases he : shape.connectorsOf b.mutation = shape.connectorsOf m
    · exact .inl (he.symm.trans hconn.symm)
    · exact .inr ⟨rfl, hfree he place hp, rfl, he⟩
  · exact ⟨d, (hr.other hc).trans hd, .inl rfl⟩

private theorem Sound.fits_rebuilt (hp : w'.parent? c = some place) : w'.Fits typed place c := by
  have hmem := (ShapeRegistry.mem_of_get? hshape).1
  have hdistinct := h.distinct shape hmem
  obtain ⟨hp', hnext⟩ := hr.parent_of hp
  have hfits := h.fits place c hp'
  cases place with
  | next p =>
    obtain ⟨d, hd, hprev⟩ := hfits
    obtain ⟨d', hd', he | ⟨hc, hplace, he, hne⟩⟩ := h.exists_rebuilt hb hshape hr hfree hp' hd
    · exact ⟨d', hd', he ▸ hprev⟩
    · exact ⟨d', hd', fun ht => he ▸ (h.regular ht).variant
        (fun hg => (h.acyclic hg).not_under hp' (by rw [hc, hplace]; exact .self)) shape hmem _ _
          hne (hnext hplace)⟩
  | input p s =>
    obtain ⟨above, k, d, ha, hk, hd, hplain, htakes⟩ := hfits
    obtain ⟨d', hd', he⟩ := h.exists_rebuilt hb hshape hr hfree hp' hd
    have he' : d'.connectors = d.connectors := he.resolve_right fun h' => by cases h'.2.1
    by_cases hx : p = id
    · subst hx
      cases Option.some.inj (hb.symm.trans ha)
      obtain ⟨k', hk'⟩ : ∃ k', (b.reshaped shape m).socket? s = some k' := by
        have ho := offers_of_occupant? (((hr.linked h.linked hdistinct).link _ _).mpr hp)
        obtain ⟨above', ha', hs⟩ := exists_socket_of_offers ho
        cases Option.some.inj ((hr.self hb).symm.trans ha')
        exact hs
      obtain ⟨shape', hshape', hlayout, -⟩ := h.shaped p b hb
      cases Option.some.inj (hshape.symm.trans hshape')
      have hname : k'.name = k.name := by
        have h1 : k'.name = s := by simpa using List.find?_some hk'
        have h2 : k.name = s := by simpa using List.find?_some hk
        rw [h1, h2]
      have hsame : k' = k := hdistinct.agree (List.mem_of_find?_eq_some hk')
        (hlayout ▸ List.mem_of_find?_eq_some hk) hname
      exact ⟨_, k', d', hr.self hb, hk', hd', hsame ▸ hplain, he' ▸ hsame ▸ htakes⟩
    · exact ⟨above, k, d', (hr.other hx).trans ha, hk, hd', hplain, he' ▸ htakes⟩

/-- Rebuilding keeps a workspace sound if a block whose connectors change has left its place. -/
theorem Sound.rebuilt : Sound rooted typed w' := by
  have hlinked := hr.linked h.linked (h.distinct shape (ShapeRegistry.mem_of_get? hshape).1)
  refine ⟨hr.shapes ▸ h.distinct, hr.shapes ▸ h.regular, hlinked, fun x d hd => ?_,
    fun p c hp => ?_, fun hg => (h.acyclic hg).mono hlinked fun x q hq => (hr.parent_of hq).1,
    fun place c hp => h.fits_rebuilt hb hshape hr hfree hp⟩
  · rw [hr.shapes]
    by_cases hx : x = id
    · subst hx
      cases Option.some.inj ((hr.self hb).symm.trans hd)
      exact ⟨shape, hshape, rfl, rfl⟩
    · exact h.shaped x d (hr.other hx ▸ hd)
  · obtain ⟨hp', hnext⟩ := hr.parent_of hp
    by_cases hx : p = id
    · exact ⟨_, hx ▸ hr.self hb, hnext (congrArg _ hx)⟩
    · rw [hr.other hx]
      exact h.follows p c hp'

end rebuilt

/-- What follows a block whose connectors stay the same may still follow it. -/
theorem Sound.parent?_rebuilt (h : Sound rooted typed w) (hb : w.bare? id = some b)
    (hshape : w.shapes.get? b.type = some shape)
    (hsame : shape.connectorsOf m = shape.connectorsOf b.mutation)
    (hr : Rebuilt w id shape m w') (x : BlockId) : w'.parent? x = w.parent? x := by
  rw [hr.parent, if_neg]
  rintro ⟨hp, hno⟩
  obtain ⟨d, hd, hnext⟩ := h.follows _ _ hp
  cases Option.some.inj (hb.symm.trans hd)
  obtain ⟨shape', hshape', -, hconn⟩ := h.shaped id b hb
  cases Option.some.inj (hshape.symm.trans hshape')
  rw [hconn, ← hsame, hno] at hnext
  cases hnext

/-- A loop that takes blocks out of their places leaves all of them free. -/
theorem Sound.ensures_clear {f : BlockId → Edit EditError Unit} (h : Sound rooted typed w)
    (hf : ∀ c w, Sound rooted typed w → (f c).Ensures w
      (fun _ w' => Sound rooted typed w' ∧ Culled w w' ∧ w'.parent? c = none)
      fun _ w' => w' = w) (l : List BlockId) :
    (l.forM f).Ensures w
      (fun _ w' => Sound rooted typed w' ∧ Culled w w' ∧ ∀ c ∈ l, w'.parent? c = none)
      fun _ w' => Sound rooted typed w' ∧ Culled w w' := by
  refine (ensures_forM (I := fun rest w' => Sound rooted typed w' ∧ Culled w w' ∧
    ∀ c ∈ l, c ∈ rest ∨ w'.parent? c = none) ?_ l w ⟨h, .refl w, fun c hc => .inl hc⟩).mono ?_
    fun _ _ h' => h'
  · rintro c rest w' ⟨h', hp, hfree⟩
    refine (hf c w' h').mono (fun _ w'' ⟨h'', hp', hc⟩ => ⟨h'', hp.trans hp', fun x hx => ?_⟩)
      fun _ _ h'' => h'' ▸ ⟨h', hp⟩
    rcases hfree x hx with hx | hx
    · rcases List.mem_cons.mp hx with rfl | hx
      · exact .inr hc
      · exact .inl hx
    · exact .inr (hp'.top hx)
  · rintro _ w' ⟨h', hp, hfree⟩
    exact ⟨h', hp, fun c hc => (hfree c hc).resolve_left (by simp)⟩

theorem Sound.ensures_sever (h : Sound rooted typed w) (c : BlockId) :
    (sever c).Ensures w
      (fun _ w' => Sound rooted typed w' ∧ Culled w w' ∧ w'.parent? c = none)
      fun _ w' => w' = w := by
  rw [h.linked.ensures_sever]
  cases hc : w.find? c with
  | none => rfl
  | some d =>
    have hhas : w.has c := has_iff.mpr ⟨d, hc⟩
    exact ⟨h.severed hhas, h.linked.culled_severed hhas, parent?_severed_self⟩

/-- Once the sockets that a mutation removes are empty, whatever a block still holds has a socket after
it. -/
theorem Sound.unremoved (h : Sound rooted typed w) (hb : w.find? id = some b)
    (hshape : w.shapes.get? b.type = some shape) (hl : w'.Linked) (hp : Pruned w w')
    (hclear : ∀ c ∈ (b.sockets.filter fun s =>
      s.name ∈ (LayoutDiff.between shape b.mutation m).removed).filterMap (·.target),
        w'.parent? c = none) {s : String} {q : BlockId}
    (hq : w'.occupant? (.input id s) = some q) : ∃ k ∈ shape.layout m, k.name = s := by
  have hocc := (h.linked.link _ _).mpr (hp.parent _ _ ((hl.link _ _).mp hq))
  obtain ⟨k, hk, ht⟩ := Option.bind_eq_some_iff.mp
    (by simpa [occupant?, hb, Block.target?] using hocc)
  have hname : k.name = s := by simpa using List.find?_some hk
  have hkept : s ∉ (LayoutDiff.between shape b.mutation m).removed := by
    intro hs
    have := hclear q (List.mem_filterMap.mpr ⟨k, List.mem_filter.mpr
      ⟨List.mem_of_find?_eq_some hk, by simpa [hname] using hs⟩, ht⟩)
    simp [(hl.link _ _).mp hq] at this
  have hold : s ∈ (shape.layout b.mutation).map (·.name) := by
    rw [← (h.layout hb hshape).1]
    exact List.mem_map.mpr ⟨k.emptied, List.mem_map_of_mem (List.mem_of_find?_eq_some hk), hname⟩
  by_contra hno
  refine hkept (List.mem_filter.mpr ⟨hold, ?_⟩)
  simpa using hno

/-- Sever what the sockets of the given names hold, and rebuild the block. -/
def shed (id : BlockId) (shape : Shape) (m : Mutation) (names : List String) :
    Edit EditError Unit := do
  let lost := (← require id).sockets.filter fun s => s.name ∈ names
  (lost.filterMap (·.target)).forM sever
  rebuild id shape m true

/-- A change of connectors unplugs the block first; then the removed sockets are shed. -/
theorem applyDiff_eq (id : BlockId) (shape : Shape) (m : Mutation) (diff : LayoutDiff) :
    applyDiff id shape m diff = (do
      if diff.connectorsChanged then
        unplug id true
      shed id shape m diff.removed) := rfl

private theorem Sound.ensures_severLost (h : Sound rooted typed w) (hb : w.bare? id = some b)
    (hshape : w.shapes.get? b.type = some shape)
    (hfree : shape.connectorsOf b.mutation ≠ shape.connectorsOf m →
      ∀ place, w.parent? id = some place → place = .next id) :
    (shed id shape m (LayoutDiff.between shape b.mutation m).removed).Ensures w
      (fun _ w' => Sound rooted typed w' ∧ w.Sheds w')
      fun _ w' => Sound rooted typed w' ∧ w.Sheds w' := by
  unfold shed
  rw [ensures_bind, ensures_require]
  cases hd : w.find? id with
  | none => exact ⟨h, .refl w⟩
  | some d =>
    have hdb : d.bare = b := by simpa [bare?, hd] using hb
    dsimp only
    rw [ensures_bind]
    refine (h.ensures_clear (fun c w h => h.ensures_sever c) _).mono ?_
      fun _ _ h' => ⟨h'.1, h'.2.sheds⟩
    rintro _ w' ⟨h', hp, hclear⟩
    cases hd' : w'.find? id with
    | none =>
      unfold rebuild
      rw [ensures_bind, ensures_require, hd']
      exact ⟨h', hp.sheds⟩
    | some d' =>
      have hbare' : w'.bare? id = some b := by
        rw [hp.bare?_eq (has_iff.mpr ⟨d', hd'⟩), hb]
      have hdb' : d'.bare = b := by simpa [bare?, hd'] using hbare'
      have hshape' : w'.shapes.get? b.type = some shape := hp.shapes ▸ hshape
      have hshaped : w.shapes.get? d.bare.type = some shape := hdb ▸ hshape
      refine (h'.ensures_rebuild hd' (hdb' ▸ hshape' : w'.shapes.get? d'.bare.type = some shape)
        fun s q hq => ?_).mono (fun _ w'' hr => ⟨?_, hp.sheds.congr fun x => hr.has⟩)
          fun _ _ h'' => h''
      · obtain ⟨k, hk, hname⟩ := h.unremoved (m := m) hd hshaped h'.linked hp.toPruned
          (by rwa [← hdb] at hclear) hq
        exact ⟨k, hk, hname, .inl rfl⟩
      · exact h'.rebuilt hbare' hshape' hr fun hne place hpl => hfree hne place (hp.parent _ _ hpl)

theorem Sound.ensures_applyDiff (h : Sound rooted typed w) (hb : w.bare? id = some b)
    (hshape : w.shapes.get? b.type = some shape) :
    (applyDiff id shape m (.between shape b.mutation m)).Ensures w
      (fun _ w' => Sound rooted typed w' ∧ w.Sheds w')
      fun _ w' => Sound rooted typed w' ∧ w.Sheds w' := by
  rw [applyDiff_eq]
  split
  · rw [ensures_bind]
    refine (h.ensures_unplug true).mono (fun _ w' hu => ?_)
      fun _ _ h' => h'.keeps (P := fun w' => Sound rooted typed w' ∧ w.Sheds w') ⟨h, .refl w⟩
    exact (hu.sound.ensures_severLost ((hu.bare id).trans hb) (hu.shapes ▸ hshape)
      fun _ place hp => hu.loose place hp).mono (fun _ _ h' => ⟨h'.1, hu.sheds h'.2⟩)
        fun _ _ h' => ⟨h'.1, hu.sheds h'.2⟩
  · rename_i hconn
    refine h.ensures_severLost hb hshape fun hne => ?_
    simp [LayoutDiff.between, hne] at hconn

theorem ensures_applyEvent_iff {event : Mutation.Event} {ok : LayoutDiff → Workspace → Prop}
    {refused : MutationError → Workspace → Prop} (hb : w.find? id = some b)
    (hshape : w.shapes.get? b.type = some shape) :
    (applyEvent id event).Ensures w ok refused ↔
      match shape.transition b.mutation event with
      | .ok (m, diff) => (applyDiff id shape m diff).Ensures w (fun _ w' => ok diff w')
          fun err => refused (.edit err)
      | .error err => refused err w := by
  unfold applyEvent
  simp only [ensures_bind, ensures_refusedAs, ensures_require, ensures_requireShape, hb, hshape,
    ensures_ofResult]
  cases shape.transition b.mutation event with
  | error err => rfl
  | ok result =>
    obtain ⟨m, diff⟩ := result
    simp only [ensures_pure]

/-- Reshaping does what the transition of the shape says, if there is one. -/
theorem ensures_applyEvent {event : Mutation.Event} {ok : LayoutDiff → Workspace → Prop}
    {refused : MutationError → Workspace → Prop}
    (hunknown : w.find? id = none → refused (.edit (.unknownBlock id)) w)
    (hshapeless : ∀ b, w.find? id = some b → w.shapes.get? b.type = none → ∀ err, refused err w)
    (hrefused : ∀ b shape err, w.find? id = some b → w.shapes.get? b.type = some shape →
      shape.transition b.mutation event = .error err → refused err w)
    (hmade : ∀ b shape m diff, w.find? id = some b → w.shapes.get? b.type = some shape →
      shape.transition b.mutation event = .ok (m, diff) →
      (applyDiff id shape m diff).Ensures w (fun _ => ok diff) fun err => refused (.edit err)) :
    (applyEvent id event).Ensures w ok refused := by
  cases hb : w.find? id with
  | none =>
    unfold applyEvent
    rw [ensures_bind, ensures_refusedAs, ensures_require, hb]
    exact hunknown hb
  | some b =>
    cases hshape : w.shapes.get? b.type with
    | none =>
      unfold applyEvent
      simp only [ensures_bind, ensures_refusedAs, ensures_require, ensures_requireShape, hb, hshape]
      exact hshapeless b hb hshape _
    | some shape =>
      rw [ensures_applyEvent_iff hb hshape]
      cases ht : shape.transition b.mutation event with
      | error err => exact hrefused b shape err hb hshape ht
      | ok result => exact hmade b shape result.1 result.2 hb hshape ht

/-- An event keeps a workspace sound, and loses only stand-ins with what is beneath them. -/
theorem Sound.ensures_applyEvent (h : Sound rooted typed w) (id : BlockId) (event : Mutation.Event) :
    (applyEvent id event).Ensures w (fun _ w' => Sound rooted typed w' ∧ w.Sheds w')
      fun _ w' => Sound rooted typed w' ∧ w.Sheds w' := by
  have hsame : Sound rooted typed w ∧ w.Sheds w := ⟨h, .refl w⟩
  refine Workspace.ensures_applyEvent (fun _ => hsame) (fun _ _ _ _ => hsame)
    (fun _ _ _ _ _ _ => hsame) fun b shape m diff hb hshape ht => ?_
  obtain ⟨-, -, -, rfl⟩ := Shape.transition_eq_ok.mp ht
  exact h.ensures_applyDiff (b := b.bare) (bare?_of_find? hb) hshape

private theorem keeps_applyEvent (id : BlockId) (event : Mutation.Event) :
    (applyEvent id event).Keeps (Sound rooted typed) :=
  fun _ h => (h.ensures_applyEvent id event).mono (fun _ _ h' => h'.1) fun _ _ h' => h'.1

theorem keeps_reshape (id : BlockId) (count : Nat) :
    (reshape id count).Keeps (Sound rooted typed) := keeps_applyEvent id _

theorem keeps_setVariant (id : BlockId) (variant : String) :
    (setVariant id variant).Keeps (Sound rooted typed) := keeps_applyEvent id _

def refield (w : Workspace) (f : Block → Fields) : Workspace :=
  { w with blocks := w.blocks.map fun b => { b with fields := f b } }

section refield

variable {f : Block → Fields}

private theorem find?_refield :
    (w.refield f).find? x = (w.find? x).map fun b => { b with fields := f b } := by
  unfold find? refield
  rw [List.find?_map]
  rfl

private theorem parent?_refield : (w.refield f).parent? x = w.parent? x := by
  unfold parent?
  rw [find?_refield]
  cases w.find? x <;> rfl

private theorem occupant?_refield (place : Attachment) :
    (w.refield f).occupant? place = w.occupant? place := by
  cases place <;>
  · simp only [occupant?, find?_refield]
    cases w.find? _ <;> rfl

private theorem exists_refielded {d : Block} (hd : w.bare? x = some d) :
    ∃ fields, (w.refield f).bare? x = some { d with fields } := by
  obtain ⟨b, hb, rfl⟩ := Option.map_eq_some_iff.mp hd
  refine ⟨f b, ?_⟩
  rw [bare?, find?_refield, hb]
  rfl

private theorem exists_of_refielded {d' : Block} (hd : (w.refield f).bare? x = some d') :
    ∃ d fields, w.bare? x = some d ∧ d' = { d with fields } := by
  rw [bare?, find?_refield, Option.map_map] at hd
  obtain ⟨b, hb, rfl⟩ := Option.map_eq_some_iff.mp hd
  exact ⟨b.bare, f b, by rw [bare?, hb]; rfl, rfl⟩

/-- The fields of the blocks do not matter. -/
theorem Sound.refielded (h : Sound rooted typed w) (f : Block → Fields) :
    Sound rooted typed (w.refield f) := by
  have hids : (w.refield f).ids = w.ids := by
    unfold ids refield
    rw [List.map_map]
    rfl
  have hlinked : (w.refield f).Linked := by
    refine ⟨hids ▸ h.linked.nodup, fun x d' hd => ?_, fun q c => ?_⟩
    · obtain ⟨d, fields, hold, rfl⟩ := exists_of_refielded hd
      exact h.linked.names x d hold
    · rw [parent?_refield, occupant?_refield, h.linked.link]
  refine ⟨h.distinct, h.regular, hlinked, fun x d' hd => ?_, fun p c hp => ?_,
    fun hg => (h.acyclic hg).mono hlinked fun x q hq => parent?_refield ▸ hq,
    fun place c hp => ?_⟩
  · obtain ⟨d, fields, hold, rfl⟩ := exists_of_refielded hd
    exact h.shaped x d hold
  · obtain ⟨d, hd, hn⟩ := h.follows p c (parent?_refield ▸ hp)
    obtain ⟨fields, hd'⟩ := exists_refielded hd
    exact ⟨_, hd', hn⟩
  · have hfits := h.fits place c (parent?_refield ▸ hp)
    cases place with
    | next p =>
      obtain ⟨d, hd, hprev⟩ := hfits
      obtain ⟨fields, hd'⟩ := exists_refielded hd
      exact ⟨_, hd', hprev⟩
    | input p s =>
      obtain ⟨b, k, d, hb, hk, hd, hplain, htakes⟩ := hfits
      obtain ⟨_, hb'⟩ := exists_refielded hb
      obtain ⟨_, hd'⟩ := exists_refielded hd
      exact ⟨_, k, _, hb', hk, hd', hplain, htakes⟩

end refield

private theorem modify_fields (id : BlockId) (g : Fields → Fields) :
    (w.modify id fun b => { b with fields := g b.fields }) =
      w.refield fun b => if b.id = id then g b.fields else b.fields := by
  unfold modify refield
  congr 1
  refine List.map_congr_left fun b _ => ?_
  by_cases hb : b.id = id <;> simp [hb]

/-- Setting a field is a transition if the field shows the mutation, and leaves the mutation alone
otherwise. -/
theorem ensures_setField {name : String} {value : FieldValue} {ok : Unit → Workspace → Prop}
    {refused : FieldError → Workspace → Prop}
    (hevent : ∀ b shape event, w.find? id = some b → w.shapes.get? b.type = some shape →
      shape.fieldEvent? name value = some event →
      (applyEvent id event).Ensures w (fun _ w' => ok () w') fun err => refused (.mutation err))
    (hstore : ∀ b shape, w.find? id = some b → w.shapes.get? b.type = some shape →
      checkField shape id name value = .ok () → (∀ m v, shape.mirror m ≠ some (name, v)) →
      ok () (w.modify id fun b => { b with fields := b.fields.insert name value }))
    (hrefused : ∀ err, refused err w) : (setField id name value).Ensures w ok refused := by
  unfold setField
  rw [ensures_bind, ensures_refusedAs, ensures_require]
  cases hb : w.find? id with
  | none => exact hrefused _
  | some b =>
    dsimp only
    rw [ensures_bind, ensures_refusedAs, ensures_requireShape]
    cases hshape : w.shapes.get? b.type with
    | none => exact hrefused _
    | some shape =>
      dsimp only
      rw [ensures_bind, ensures_refusedAs, ensures_ofResult]
      cases hv : checkField shape id name value with
      | error e => exact hrefused _
      | ok _ =>
        have hset (hplain : ∀ m v, shape.mirror m ≠ some (name, v)) :
            ((update id fun b => { b with fields := b.fields.insert name value }).refusedAs
              FieldError.edit).Ensures w ok refused := by
          rw [ensures_refusedAs, ensures_update, hb]
          exact hstore b shape hb hshape hv hplain
        dsimp only
        cases hmut : shape.mutator with
        | fixed => exact hset fun m v => by simp [Shape.mirror, hmut]
        | branches => exact hset fun m v => by simp [Shape.mirror, hmut]
        | variants field list =>
          dsimp only
          split
          · rename_i he
            rw [ensures_discard, ensures_refusedAs]
            exact hevent b shape _ hb hshape (by simp [Shape.fieldEvent?, hmut, he])
          · rename_i hne
            exact hset fun m v => by cases m <;> simp [Shape.mirror, hmut, hne]
        | repeats spec =>
          dsimp only
          split
          · rename_i he
            cases hcount : unitCount? (value.number?.getD .zero) with
            | none => exact hrefused _
            | some count =>
              dsimp only
              rw [ensures_discard, ensures_refusedAs]
              exact hevent b shape _ hb hshape (by simp [Shape.fieldEvent?, hmut, he, hcount])
          · rename_i hne
            exact hset fun m v => by cases m <;> simp [Shape.mirror, hmut, hne]

/-- Setting a field keeps a workspace sound, and loses only stand-ins with what is beneath them. -/
theorem Sound.ensures_setField (h : Sound rooted typed w) (id : BlockId) (name : String)
    (value : FieldValue) :
    (setField id name value).Ensures w (fun _ w' => Sound rooted typed w' ∧ w.Sheds w')
      fun _ w' => Sound rooted typed w' ∧ w.Sheds w' := by
  have hset := modify_fields (w := w) id fun fields => fields.insert name value
  refine Workspace.ensures_setField (fun b shape event _ _ _ => h.ensures_applyEvent id event)
    (fun b shape _ _ _ _ => ⟨hset ▸ h.refielded _, ?_⟩)
    fun _ => ⟨h, .refl w⟩
  exact .of_has fun x hx =>
    (has_modify (f := fun b => { b with fields := b.fields.insert name value }) fun _ => rfl).trans hx

theorem keeps_setField (id : BlockId) (name : String) (value : FieldValue) :
    (setField id name value).Keeps (Sound rooted typed) :=
  fun _ h => (h.ensures_setField id name value).mono (fun _ _ h' => h'.1) fun _ _ h' => h'.1

end Workspace

end BlockProgram
