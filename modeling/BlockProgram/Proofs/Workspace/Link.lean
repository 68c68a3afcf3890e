import BlockProgram.Proofs.Edit.Outcome
import BlockProgram.Proofs.Workspace.Place

/-! Workspaces in which both ends of every link agree. Taking a block out of its place and putting a
free block into a free place keep that, and the bare blocks with their places say all there is. -/
namespace BlockProgram.Workspace

open Edit

/-- Ids are not repeated, nor are socket names in a block, and a block is in a place exactly if it
says so itself. -/
structure Linked (w : Workspace) : Prop where
  nodup : w.ids.Nodup
  names : ∀ x b, w.bare? x = some b → (b.sockets.map (·.name)).Nodup
  link : ∀ place c, w.occupant? place = some c ↔ w.parent? c = some place

/-- The workspace with a block out of its place, and the place empty. -/
def detached (w : Workspace) (id : BlockId) : Workspace :=
  match w.parent? id with
  | none => w
  | some place => (w.settle id none).fill place none

/-- The workspace with a block put into a place. -/
def attached (w : Workspace) (place : Attachment) (c : BlockId) : Workspace :=
  (w.fill place (some c)).settle c (some place)

variable {w w' : Workspace} {id x c : BlockId} {place q : Attachment}

/-- A block is in no other place than its own. -/
theorem Linked.occupant?_iff (h : w.Linked) (hp : w.parent? c = some place) :
    w.occupant? q = some c ↔ q = place := by
  rw [h.link, hp]
  simp [eq_comm]

theorem Linked.socket_names (h : w.Linked) {b : Block} (hb : w.find? x = some b) :
    (b.sockets.map (·.name)).Nodup := by
  simpa [Block.bare, Function.comp_def, Socket.emptied] using
    h.names x b.bare (bare?_of_find? hb)

/-- A block is known by what it is and where its links lead. -/
theorem Linked.find?_eq (h : w.Linked) {b : Block} (hbare : w.bare? x = some b.bare)
    (htarget : ∀ n, w.occupant? (.input x n) = b.target? n)
    (hnext : w.occupant? (.next x) = b.next) (hparent : w.parent? x = b.parent) :
    w.find? x = some b := by
  obtain ⟨b', hb', he⟩ := Option.map_eq_some_iff.mp hbare
  have hsockets : b'.sockets = b.sockets := by
    have hemptied : b.sockets.map Socket.emptied = b'.sockets.map Socket.emptied :=
      congrArg Block.sockets he.symm
    refine (Block.sockets_eq (h.socket_names hb') hemptied fun n => ?_).symm
    rw [← htarget]
    simp [occupant?, hb']
  simp only [occupant?, parent?, hb', Option.bind_some] at hnext hparent
  rw [hb']
  cases b
  cases b'
  simp_all [Block.bare]

/-- Workspaces with the same blocks in the same places are the same. -/
theorem Linked.ext (h : w.Linked) (h' : w'.Linked) (hs : w'.shapes = w.shapes) (hi : w'.ids = w.ids)
    (hbare : ∀ x, w'.bare? x = w.bare? x) (hparent : ∀ x, w'.parent? x = w.parent? x) : w' = w := by
  have hoccupant (place : Attachment) : w'.occupant? place = w.occupant? place :=
    Option.ext fun c => by rw [h'.link, h.link, hparent]
  refine ext_find? hs hi h.nodup fun x => ?_
  cases hb : w.find? x with
  | none =>
    have hx := hbare x
    rw [bare?, bare?, hb] at hx
    exact Option.map_eq_none_iff.mp hx
  | some b =>
    refine h'.find?_eq ((hbare x).trans (bare?_of_find? hb)) (fun n => ?_) ?_ ?_
    · rw [hoccupant]
      simp [occupant?, hb]
    · rw [hoccupant]
      simp [occupant?, hb]
    · rw [hparent]
      simp [parent?, hb]

section unlinked

variable (hbare : ∀ b ∈ w.blocks, b.bare = b)
include hbare

theorem parent?_of_bare : w.parent? x = none := by
  refine Option.bind_eq_none_iff.mpr fun b hb => ?_
  rw [← hbare b (mem_of_find? hb).1]
  rfl

private theorem occupant?_of_bare : w.occupant? place = none := by
  cases place with
  | input p s =>
    refine Option.bind_eq_none_iff.mpr fun b hb => ?_
    rw [← hbare b (mem_of_find? hb).1]
    exact b.target?_bare s
  | next p =>
    refine Option.bind_eq_none_iff.mpr fun b hb => ?_
    rw [← hbare b (mem_of_find? hb).1]
    rfl

/-- Without links no two ends disagree. -/
theorem linked_of_bare (hn : w.ids.Nodup)
    (hnames : ∀ b ∈ w.blocks, (b.sockets.map (·.name)).Nodup) : w.Linked where
  nodup := hn
  names x b hb := by
    obtain ⟨d, hd, rfl⟩ := Option.map_eq_some_iff.mp hb
    have hmem := (mem_of_find? hd).1
    exact (hbare d hmem).symm ▸ hnames d hmem
  link place c := by simp [parent?_of_bare hbare, occupant?_of_bare hbare]

end unlinked

section detached

@[simp] theorem shapes_detached : (w.detached id).shapes = w.shapes := by
  unfold detached
  split <;> simp

@[simp] theorem ids_detached : (w.detached id).ids = w.ids := by
  unfold detached
  split <;> simp

@[simp] theorem has_detached : (w.detached id).has x = w.has x := by
  unfold detached
  split <;> simp

@[simp] theorem bare?_detached : (w.detached id).bare? x = w.bare? x := by
  unfold detached
  split <;> simp

theorem parent?_detached : (w.detached id).parent? x = if x = id then none else w.parent? x := by
  unfold detached
  split
  · rename_i h
    by_cases hx : x = id
    · simp [hx, h]
    · simp [hx]
  · rename_i place h
    rw [parent?_fill, parent?_settle]
    by_cases hx : x = id
    · simp [hx, has_of_parent? h]
    · simp [hx]

theorem Linked.occupant?_detached (h : w.Linked) :
    (w.detached id).occupant? q = if w.occupant? q = some id then none else w.occupant? q := by
  unfold detached
  split
  · rename_i hp
    have hq : w.occupant? q ≠ some id := fun he => by simp [(h.link q id).mp he] at hp
    simp [hq]
  · rename_i place hp
    have ho := (h.link place id).mpr hp
    rw [occupant?_fill, occupant?_settle]
    by_cases hq : q = place
    · have : (w.settle id none).offers place :=
        (offers_congr (bare?_settle ..)).trans (offers_of_occupant? ho)
      simp [hq, ho, this]
    · have hne : w.occupant? q ≠ some id := fun he =>
        hq (Option.some.inj (((h.link q id).mp he).symm.trans hp))
      simp [hq, hne]

/-- A block that leaves its place takes both ends of the link away. -/
theorem Linked.detached (h : w.Linked) (id : BlockId) : (w.detached id).Linked where
  nodup := by simpa using h.nodup
  names x b hb := h.names x b (by simpa using hb)
  link place c := by
    rw [h.occupant?_detached, parent?_detached]
    by_cases hc : c = id
    · subst hc
      by_cases ho : w.occupant? place = some c <;> simp [ho]
    · have hl := h.link place c
      by_cases ho : w.occupant? place = some id
      · simp_all [Ne.symm hc]
      · simp [ho, hc, hl]

end detached

section attached

@[simp] theorem shapes_attached : (w.attached place c).shapes = w.shapes := by
  simp [attached]

@[simp] theorem ids_attached : (w.attached place c).ids = w.ids := by
  simp [attached]

@[simp] theorem has_attached : (w.attached place c).has x = w.has x := by
  simp [attached]

@[simp] theorem bare?_attached : (w.attached place c).bare? x = w.bare? x := by
  simp [attached]

@[simp] theorem map_bare_attached :
    (w.attached place c).blocks.map Block.bare = w.blocks.map Block.bare := by
  simp [attached]

/-- Only the block that is put into a place gets a new one. -/
theorem parent?_attached (hc : w.has c) :
    (w.attached place c).parent? x = if x = c then some place else w.parent? x := by
  rw [attached, parent?_settle, parent?_fill]
  by_cases hx : x = c
  · simp [hx, hc]
  · simp [hx]

theorem occupant?_attached (hp : w.offers place) :
    (w.attached place c).occupant? q = if q = place then some c else w.occupant? q := by
  simp [attached, occupant?_fill, hp]

/-- A free block goes into a free place. -/
theorem Linked.attached (h : w.Linked) (hp : w.offers place) (hfree : w.occupant? place = none)
    (hc : w.has c) (htop : w.parent? c = none) : (w.attached place c).Linked where
  nodup := by simpa using h.nodup
  names x b hb := h.names x b (by simpa using hb)
  link q x := by
    rw [occupant?_attached hp, parent?_attached hc]
    by_cases hx : x = c
    · subst hx
      have hne : w.occupant? q ≠ some x := fun ho => by simp [(h.link q x).mp ho] at htop
      by_cases hq : q = place
      · simp [hq]
      · simp [hq, hne, Ne.symm hq]
    · have hne : w.parent? x ≠ some place := fun ho => by simp [(h.link place x).mpr ho] at hfree
      by_cases hq : q = place
      · simp [hq, hx, hne, Ne.symm hx]
      · simp [hq, hx, h.link q x]

end attached

section edits

variable {α : Type} {ok : α → Workspace → Prop} {refused : EditError → Workspace → Prop}

theorem ensures_require {ok : Block → Workspace → Prop} :
    (require id).Ensures w ok refused ↔ match w.find? id with
      | some b => ok b w
      | none => refused (.unknownBlock id) w := by
  unfold require
  rw [ensures_bind, ensures_get]
  cases w.find? id <;> rfl

theorem ensures_requireShape {b : Block} {ok : Shape → Workspace → Prop} :
    (requireShape b).Ensures w ok refused ↔ match w.shapes.get? b.type with
      | some shape => ok shape w
      | none => refused (.unknownType b.type) w := by
  unfold requireShape
  rw [ensures_bind, ensures_get]
  cases w.shapes.get? b.type <;> rfl

theorem ensures_update {f : Block → Block} {ok : Unit → Workspace → Prop} :
    (update id f).Ensures w ok refused ↔ match w.find? id with
      | some _ => ok () (w.modify id f)
      | none => refused (.unknownBlock id) w := by
  unfold update
  rw [ensures_bind, ensures_require]
  cases w.find? id <;> rfl

/-- A block that exists is taken out of its place; this is never refused half-way. -/
theorem Linked.ensures_detach (h : w.Linked) {ok : Unit → Workspace → Prop} :
    (detach id).Ensures w ok refused ↔ match w.find? id with
      | some _ => ok () (w.detached id)
      | none => refused (.unknownBlock id) w := by
  unfold detach
  rw [ensures_bind, ensures_require]
  cases hb : w.find? id with
  | none => rfl
  | some b =>
    have hpar : w.parent? id = b.parent := by simp [parent?, hb]
    unfold Workspace.detached
    simp only [hpar]
    cases hp : b.parent with
    | none => rfl
    | some place =>
      have hplace : (w.settle id none).has place.block := by
        rw [has_settle]
        exact has_of_offers (offers_of_occupant? ((h.link place id).mpr (hpar.trans hp)))
      obtain ⟨above, habove⟩ := has_iff.mp hplace
      simp only [ensures_bind, ensures_update, hb]
      cases place with
      | input p s =>
        change (update p fun b => b.plug s none).Ensures (w.settle id none) ok refused ↔ _
        rw [ensures_update, show (w.settle id none).find? p = some above from habove]
        rfl
      | next p =>
        change (update p fun b => { b with next := none }).Ensures (w.settle id none) ok refused ↔ _
        rw [ensures_update, show (w.settle id none).find? p = some above from habove]
        rfl

/-- A block that exists is plugged into a socket, if the socket exists. -/
theorem ensures_attachInput {p : BlockId} {s : String} {ok : Unit → Workspace → Prop}
    (hc : w.has c) (hok : w.offers (.input p s) → ok () (w.attached (.input p s) c))
    (hrefused : ¬ w.offers (.input p s) → ∀ err, refused err w) :
    (attachInput p s c).Ensures w ok refused := by
  unfold attachInput
  rw [ensures_bind, ensures_require]
  cases hb : w.find? p with
  | none => exact hrefused (by simp [offers, hb]) _
  | some b =>
    obtain ⟨child, hchild⟩ := has_iff.mp ((has_fill w (.input p s) (some c) c).trans hc)
    cases hk : b.socket? s with
    | none => simp [hk, hrefused (by simp [offers, hb, hk])]
    | some k =>
      simp only [hk, Option.isNone_some, Bool.false_eq_true, if_false, ensures_bind,
        ensures_update, hb]
      change match (w.fill (.input p s) (some c)).find? c with
        | some _ => ok () (w.attached (.input p s) c)
        | none => refused (.unknownBlock c) (w.fill (.input p s) (some c))
      rw [hchild]
      exact hok (by simp [offers, hb, hk])

/-- A block that exists follows another one that exists. -/
theorem ensures_attachNext {p : BlockId} {ok : Unit → Workspace → Prop}
    (hp : w.has p) (hc : w.has c) (hok : ok () (w.attached (.next p) c)) :
    (attachNext p c).Ensures w ok refused := by
  obtain ⟨b, hb⟩ := has_iff.mp hp
  obtain ⟨child, hchild⟩ := has_iff.mp ((has_fill w (.next p) (some c) c).trans hc)
  unfold attachNext
  rw [ensures_bind, ensures_update, hb]
  change (update c fun b => { b with parent := some (.next p) }).Ensures
    (w.fill (.next p) (some c)) ok refused
  rw [ensures_update, hchild]
  exact hok

end edits

end BlockProgram.Workspace
