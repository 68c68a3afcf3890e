import BlockProgram.Document.Restore
import BlockProgram.Proofs.Workspace.Edit

/-! The connections of a document. One of them is made exactly if the workspace admits it, and then one free
block stands in one free place; so it does not matter in which order connections are made. -/
namespace BlockProgram

def Connection.place : Connection → Attachment
  | .input parent socket _ => .input parent socket
  | .next parent _ => .next parent

/-- A connection is told by the place that it fills and the block that it puts there. -/
theorem Connection.ext {c c' : Connection} (hplace : c.place = c'.place)
    (hchild : c.child = c'.child) : c = c' := by
  cases c <;> cases c' <;> simp_all [place, child]

private theorem Block.parent_of_mem_connections {b : Block} {c : Connection} (h : c ∈ b.connections) :
    c.parent = b.id := by
  unfold connections at h
  rcases List.mem_append.mp h with h | h
  · obtain ⟨k, -, hk⟩ := List.mem_filterMap.mp h
    obtain ⟨child, -, rfl⟩ := Option.map_eq_some_iff.mp hk
    rfl
  · obtain ⟨child, -, rfl⟩ := List.mem_map.mp h
    rfl

namespace Workspace

open Edit

variable {w w' : Workspace} {x p c : BlockId} {b d : Block} {s : String} {k : Socket}
  {link a : Connection} {links links' : List Connection} {place : Attachment}

/-- A document has exactly the links of its workspace. -/
theorem Linked.mem_connections (h : w.Linked) :
    link ∈ w.document.connections ↔ w.parent? link.child = some link.place := by
  rw [← h.link]
  change link ∈ w.blocks.flatMap Block.connections ↔ _
  rw [List.mem_flatMap]
  constructor
  · rintro ⟨b, hb, hl⟩
    have hfind := find?_of_mem h.nodup hb
    rcases List.mem_append.mp hl with hl | hl
    · obtain ⟨k, hk, hl⟩ := List.mem_filterMap.mp hl
      obtain ⟨child, ht, rfl⟩ := Option.map_eq_some_iff.mp hl
      exact occupant?_of_socket? hfind (Block.socket?_of_mem (h.socket_names hfind) hk) ht
    · obtain ⟨child, hn, rfl⟩ := List.mem_map.mp hl
      exact occupant?_of_next hfind (Option.mem_toList.mp hn)
  · intro ho
    cases link with
    | input p s child =>
      obtain ⟨b, hb, ht⟩ := Option.bind_eq_some_iff.mp ho
      obtain ⟨k, hk, ht⟩ := Option.bind_eq_some_iff.mp ht
      have hname : k.name = s := by simpa using List.find?_some hk
      refine ⟨b, (mem_of_find? hb).1, List.mem_append_left _ (List.mem_filterMap.mpr
        ⟨k, List.mem_of_find?_eq_some hk, ?_⟩)⟩
      rw [ht, hname, (mem_of_find? hb).2]
      rfl
    | next p child =>
      obtain ⟨b, hb, hn⟩ := Option.bind_eq_some_iff.mp ho
      refine ⟨b, (mem_of_find? hb).1, List.mem_append_right _ ?_⟩
      rw [hn, (mem_of_find? hb).2]
      exact List.mem_singleton_self _

/-- A document lists every connection once. -/
theorem Linked.nodup_connections (h : w.Linked) : w.document.connections.Nodup := by
  change (w.blocks.flatMap Block.connections).Nodup
  refine List.nodup_flatMap.mpr ⟨fun b hb => ?_, ?_⟩
  · have hnames := List.pairwise_map.mp (h.socket_names (find?_of_mem h.nodup hb))
    refine List.nodup_append.mpr ⟨List.pairwise_filterMap.mpr (hnames.imp ?_), ?_, ?_⟩
    · intro k k' hne l hl l' hl' he
      obtain ⟨_, -, rfl⟩ := Option.map_eq_some_iff.mp hl
      obtain ⟨_, -, rfl⟩ := Option.map_eq_some_iff.mp hl'
      exact hne (Connection.input.inj he).2.1
    · cases b.next <;> simp
    · intro l hl l' hl' he
      obtain ⟨k, -, hk⟩ := List.mem_filterMap.mp hl
      obtain ⟨_, -, rfl⟩ := Option.map_eq_some_iff.mp hk
      obtain ⟨_, -, rfl⟩ := List.mem_map.mp hl'
      cases he
  · refine (List.pairwise_map.mp h.nodup).imp fun {b b'} hne => List.disjoint_left.mpr ?_
    intro l hl hl'
    exact hne ((Block.parent_of_mem_connections hl).symm.trans
      (Block.parent_of_mem_connections hl'))

/-- The connection can be made: its block and its place are free, fit each other, and the place is not beneath
the block. -/
structure Admits (w : Workspace) (link : Connection) : Prop where
  free : w.parent? link.child = none
  vacant : w.occupant? link.place = none
  rooted : ¬ w.Under link.child link.place.block
  fits : w.Fits True link.place link.child
  follows : ∀ p, link.place = .next p → ∃ b, w.bare? p = some b ∧ b.connectors.next

theorem Admits.has_child (h : w.Admits link) : w.has link.child := by
  have hfits := h.fits
  cases hplace : link.place with
  | input p s =>
    rw [hplace] at hfits
    obtain ⟨_, _, _, -, -, hd, -⟩ := hfits
    exact has_of_bare? hd
  | next p =>
    rw [hplace] at hfits
    obtain ⟨_, hd, -⟩ := hfits
    exact has_of_bare? hd

theorem Admits.offers (h : w.Admits link) : w.offers link.place := by
  have hfits := h.fits
  cases hplace : link.place with
  | input p s =>
    rw [hplace] at hfits
    obtain ⟨_, _, _, hb, hk, -⟩ := hfits
    exact offers_of_bare? hb hk
  | next p =>
    obtain ⟨_, hb, -⟩ := h.follows p hplace
    exact has_of_bare? hb

/-- A connection that can be made keeps both ends of every link in step. -/
theorem Admits.linked (h : w.Admits link) (hl : w.Linked) :
    (w.attached link.place link.child).Linked :=
  hl.attached h.offers h.vacant h.has_child h.free

/-- Blocks that have a place keep it. -/
theorem Admits.keeps (h : w.Admits link) (hx : w.parent? x = some place) :
    (w.attached link.place link.child).parent? x = some place := by
  rw [parent?_attached h.has_child, if_neg]
  · exact hx
  · rintro rfl
    rw [h.free] at hx
    cases hx

private theorem admits_input (hb : w.find? p = some b) (hk : b.socket? s = some k)
    (hd : w.find? c = some d) : w.Admits (.input p s c) ↔
      d.parent = none ∧ k.target = none ∧ k.takes d.connectors ∧ ¬ w.Under c p := by
  constructor
  · rintro ⟨hfree, hvacant, hu, ⟨b', k', d', hb', hk', hd', -, htakes⟩, -⟩
    obtain rfl := eq_bare_of_find? hb hb'
    obtain rfl := eq_bare_of_find? hd hd'
    rw [Block.socket?_bare, hk] at hk'
    obtain rfl := Option.some.inj hk'
    exact ⟨by simpa [parent?, Connection.child, hd] using hfree,
      by simpa [occupant?, Connection.place, hb, Block.target?, hk] using hvacant,
      htakes trivial, hu⟩
  · rintro ⟨hfree, hvacant, htakes, hu⟩
    exact ⟨by simpa [parent?, Connection.child, hd] using hfree,
      by simpa [occupant?, Connection.place, hb, Block.target?, hk] using hvacant, hu,
      fits_input hb hk hd htakes, fun _ hq => by cases hq⟩

private theorem admits_next (hb : w.find? p = some b) (hd : w.find? c = some d) :
    w.Admits (.next p c) ↔ d.parent = none ∧ b.next = none ∧ b.connectors.next ∧
      d.connectors.previous ∧ ¬ w.Under c p := by
  constructor
  · rintro ⟨hfree, hvacant, hu, ⟨d', hd', hprevious⟩, hfollows⟩
    obtain ⟨b', hb', hnext⟩ := hfollows p rfl
    obtain rfl := eq_bare_of_find? hb hb'
    obtain rfl := eq_bare_of_find? hd hd'
    exact ⟨by simpa [parent?, Connection.child, hd] using hfree,
      by simpa [occupant?, Connection.place, hb] using hvacant, hnext, hprevious trivial, hu⟩
  · rintro ⟨hfree, hvacant, hnext, hprevious, hu⟩
    exact ⟨by simpa [parent?, Connection.child, hd] using hfree,
      by simpa [occupant?, Connection.place, hb] using hvacant, hu, fits_next hd hprevious,
      fun q hq => ⟨b.bare, by cases hq; exact bare?_of_find? hb, hnext⟩⟩

section free

variable {ok : Unit → Workspace → Prop} {refused : EditError → Workspace → Prop}

private theorem ensures_free_child (h : w.Linked) (hd : w.find? c = some d) (hfree : d.parent = none)
    {rest : Edit EditError Unit} (hrest : ¬ w.Under c p → rest.Ensures w ok refused)
    (hrefused : w.Under c p → ∀ err w', refused err w') :
    (do refuseCycle p c; detach c; rest).Ensures w ok refused := by
  have hsame : w.detached c = w := by
    unfold detached
    rw [show w.parent? c = none by simpa [parent?, hd] using hfree]
  rw [ensures_bind]
  refine ensures_refuseCycle (fun hu => ?_) fun hu => hrefused hu _ _
  rw [ensures_bind, h.ensures_detach, hd, hsame]
  exact hrest hu

private theorem ensures_requireSocket_iff {kind : SocketKind} {ok : Socket → Workspace → Prop}
    (hb : w.find? p = some b) (hk : b.socket? s = some k) : (requireSocket p s kind).Ensures w ok
      refused ↔ if k.kind = kind then ok k w else refused (.wrongSocketKind p s kind) w := by
  unfold requireSocket
  rw [ensures_bind, ensures_require, hb]
  dsimp only
  rw [hk]
  dsimp only
  split <;> rfl

theorem ensures_connectValue_free (h : w.Linked) (hb : w.find? p = some b)
    (hk : b.socket? s = some k) (hd : w.find? c = some d) (hfree : d.parent = none)
    (hvacant : k.target = none)
    (hok : k.kind = .value → k.takes d.connectors → ¬ w.Under c p →
      ok () (w.attached (.input p s) c))
    (hrefused : (k.kind = .value → k.takes d.connectors → w.Under c p) → ∀ err w', refused err w') :
    (connectValue p s c).Ensures w ok refused := by
  unfold connectValue
  rw [ensures_bind, ensures_requireSocket_iff hb hk]
  split
  case isFalse hkind => exact hrefused (fun he => absurd he hkind) _ _
  case isTrue hkind =>
    have htakes : k.takes d.connectors =
        (d.connectors.output && typesFit k.accepts d.connectors.types) := by
      simp [Socket.takes, hkind]
    rw [ensures_bind, ensures_require, hd]
    dsimp only
    split
    · exact hrefused (fun _ ht => by simp_all) _ _
    rename_i hout
    split
    · exact hrefused (fun _ ht => by simp_all) _ _
    rename_i htypes
    rw [hvacant, if_pos (Option.some_ne_none c).symm]
    refine ensures_free_child h hd hfree (fun hu => ?_) fun hu => hrefused fun _ _ => hu
    exact ensures_attachInput (has_iff.mpr ⟨d, hd⟩) (fun _ => hok hkind (by simp_all) hu)
      fun hno => (hno (by simp [offers, hb, hk])).elim

private theorem ensures_connectStatement_free (h : w.Linked) (hb : w.find? p = some b)
    (hk : b.socket? s = some k) (hkind : k.kind = .statement) (hd : w.find? c = some d)
    (hfree : d.parent = none) (hvacant : k.target = none)
    (hok : k.takes d.connectors → ¬ w.Under c p → ok () (w.attached (.input p s) c))
    (hrefused : (k.takes d.connectors → w.Under c p) → ∀ err w', refused err w') :
    (connectStatement p s c).Ensures w ok refused := by
  have htakes : k.takes d.connectors = d.connectors.previous := by simp [Socket.takes, hkind]
  unfold connectStatement
  rw [ensures_bind, ensures_requireSocket_iff hb hk, if_pos hkind, ensures_bind, ensures_require, hd]
  dsimp only
  split
  · exact hrefused (fun ht => by simp_all) _ _
  rename_i hprevious
  rw [hvacant, if_pos (Option.some_ne_none c).symm]
  refine ensures_free_child h hd hfree (fun hu => ?_) fun hu => hrefused fun _ => hu
  rw [ensures_bind]
  exact ensures_attachInput (has_iff.mpr ⟨d, hd⟩) (fun _ => hok (by simp_all) hu)
    fun hno => (hno (by simp [offers, hb, hk])).elim

private theorem ensures_connectNext_free (h : w.Linked) (hb : w.find? p = some b)
    (hd : w.find? c = some d) (hfree : d.parent = none) (hvacant : b.next = none)
    (hok : b.connectors.next → d.connectors.previous → ¬ w.Under c p →
      ok () (w.attached (.next p) c))
    (hrefused : (b.connectors.next → d.connectors.previous → w.Under c p) →
      ∀ err w', refused err w') :
    (connectNext p c).Ensures w ok refused := by
  unfold connectNext
  rw [ensures_bind, ensures_require, hb]
  dsimp only
  split
  · exact hrefused (fun hn => by simp_all) _ _
  rename_i hnext
  rw [ensures_bind, ensures_require, hd]
  dsimp only
  split
  · exact hrefused (fun _ hp => by simp_all) _ _
  rename_i hprevious
  rw [hvacant, if_pos (Option.some_ne_none c).symm]
  refine ensures_free_child h hd hfree (fun hu => ?_) fun hu => hrefused fun _ _ => hu
  rw [ensures_bind]
  exact ensures_attachNext (has_iff.mpr ⟨b, hb⟩) (has_iff.mpr ⟨d, hd⟩)
    (hok (by simpa using hnext) (by simpa using hprevious) hu)

end free

private theorem not_admits_of_parent? (hd : w.find? link.child = some d) (hp : d.parent.isSome) :
    ¬ w.Admits link := by
  intro h
  have hfree := h.free
  simp only [parent?, hd, Option.bind_some] at hfree
  simp [hfree] at hp

section

variable {ok : Unit → Workspace → Prop} {refused : RestoreError → Workspace → Prop}

/-- Both blocks of a connection are looked up first, and the inner one has to be free. -/
theorem ensures_ends {rest : Block → Edit RestoreError Unit}
    (hrest : ∀ b d, w.find? link.parent = some b → w.find? link.child = some d → d.parent = none →
      (rest b).Ensures w ok refused)
    (hrefused : ¬ w.Admits link → ∀ err w', refused err w') :
    (do
      if (← (require link.child).refusedAs (.connection link.parent link.child)).parent.isSome then
        throw (.duplicateConnection link.child)
      rest (← (require link.parent).refusedAs (.connection link.parent link.child)) :
      Edit RestoreError Unit).Ensures w ok refused := by
  rw [ensures_bind, ensures_refusedAs, ensures_require]
  cases hd : w.find? link.child with
  | none =>
    refine hrefused (fun ha => ?_) _ _
    have hchild := ha.has_child
    simp [has, hd] at hchild
  | some d =>
    dsimp only
    split
    case isTrue hp => exact hrefused (not_admits_of_parent? hd hp) _ _
    rename_i hp
    rw [ensures_bind, ensures_refusedAs, ensures_require]
    cases hb : w.find? link.parent with
    | none =>
      refine hrefused (fun ha => ?_) _ _
      have hoffers := ha.offers
      cases link <;> simp_all [offers, Connection.place, Connection.parent, has]
    | some b => exact hrest b d hb hd (by simpa using hp)

private theorem Linked.ensures_restoreInput (h : w.Linked)
    (hok : w.Admits (.input p s c) → ok () (w.attached (.input p s) c))
    (hrefused : ¬ w.Admits (.input p s c) → ∀ err w', refused err w') :
    (restoreConnection (.input p s c)).Ensures w ok refused := by
  refine ensures_ends (fun b d hb hd hfree => ?_) hrefused
  dsimp only [Connection.parent, Connection.child] at hb hd ⊢
  cases hk : b.socket? s with
  | none =>
    refine hrefused (fun ha => ?_) _ _
    have hoffers := ha.offers
    simp [offers, Connection.place, hb, hk] at hoffers
  | some k =>
    rw [admits_input hb hk hd] at hok hrefused
    dsimp only
    split
    case isTrue ht => exact hrefused (fun ha => by simp [ha.2.1] at ht) _ _
    rename_i ht
    have hvacant : k.target = none := by simpa using ht
    split
    · rename_i hkind
      rw [ensures_refusedAs]
      exact ensures_connectStatement_free h hb hk hkind hd hfree hvacant
        (fun htakes hu => hok ⟨hfree, hvacant, htakes, hu⟩)
        fun hno err => hrefused (fun ha => ha.2.2.2 (hno ha.2.2.1)) _
    · rename_i hkind
      rw [ensures_refusedAs]
      refine ensures_connectValue_free h hb hk hd hfree hvacant
        (fun _ htakes hu => hok ⟨hfree, hvacant, htakes, hu⟩)
        fun hno err => hrefused (fun ha => ha.2.2.2 (hno ?_ ha.2.2.1)) _
      -- a label takes nothing
      have htakes := ha.2.2.1
      cases hk : k.kind <;> simp_all [Socket.takes]

private theorem Linked.ensures_restoreNext (h : w.Linked)
    (hok : w.Admits (.next p c) → ok () (w.attached (.next p) c))
    (hrefused : ¬ w.Admits (.next p c) → ∀ err w', refused err w') :
    (restoreConnection (.next p c)).Ensures w ok refused := by
  refine ensures_ends (fun b d hb hd hfree => ?_) hrefused
  dsimp only [Connection.parent, Connection.child] at hb hd ⊢
  rw [admits_next hb hd] at hok hrefused
  split
  case isTrue hn => exact hrefused (fun ha => by simp [ha.2.1] at hn) _ _
  rename_i hn
  have hvacant : b.next = none := by simpa using hn
  rw [ensures_refusedAs]
  exact ensures_connectNext_free h hb hd hfree hvacant
    (fun hnext hprevious hu => hok ⟨hfree, hvacant, hnext, hprevious, hu⟩)
    fun hno err => hrefused (fun ha => ha.2.2.2.2 (hno ha.2.2.1 ha.2.2.2.1)) _

/-- A connection is made exactly if the workspace admits it. -/
theorem Linked.ensures_restoreConnection (h : w.Linked)
    (hok : w.Admits link → ok () (w.attached link.place link.child))
    (hrefused : ¬ w.Admits link → ∀ err w', refused err w') :
    (restoreConnection link).Ensures w ok refused := by
  cases link with
  | input => exact h.ensures_restoreInput hok hrefused
  | next => exact h.ensures_restoreNext hok hrefused

end

/-- The connections can be made one after the other. -/
def Joinable (w : Workspace) : List Connection → Prop
  | [] => True
  | link :: rest => w.Admits link ∧ (w.attached link.place link.child).Joinable rest

/-- The workspace with the connections made one after the other. -/
def joined (w : Workspace) (links : List Connection) : Workspace :=
  links.foldl (fun w link => w.attached link.place link.child) w

@[simp] theorem shapes_joined : (w.joined links).shapes = w.shapes := by
  induction links generalizing w with
  | nil => rfl
  | cons link rest ih => exact ih.trans shapes_attached

@[simp] theorem ids_joined : (w.joined links).ids = w.ids := by
  induction links generalizing w with
  | nil => rfl
  | cons link rest ih => exact ih.trans ids_attached

@[simp] theorem bare?_joined : (w.joined links).bare? x = w.bare? x := by
  induction links generalizing w with
  | nil => rfl
  | cons link rest ih => exact ih.trans bare?_attached

@[simp] theorem map_bare_joined :
    (w.joined links).blocks.map Block.bare = w.blocks.map Block.bare := by
  induction links generalizing w with
  | nil => rfl
  | cons link rest ih => exact ih.trans map_bare_attached

/-- Connections are restored exactly where they can be made one after the other. -/
theorem Linked.ensures_restoreConnections (h : w.Linked) {ok : Unit → Workspace → Prop}
    {refused : RestoreError → Workspace → Prop}
    (hok : w.Joinable links → ok () (w.joined links))
    (hrefused : ¬ w.Joinable links → ∀ err w', refused err w') :
    (links.forM restoreConnection).Ensures w ok refused := by
  induction links generalizing w with
  | nil => exact hok trivial
  | cons link rest ih =>
    change (restoreConnection link >>= fun _ => rest.forM restoreConnection).Ensures w ok refused
    rw [ensures_bind]
    refine h.ensures_restoreConnection (fun ha => ?_) fun hno => hrefused fun hj => hno hj.1
    exact ih (ha.linked h) (fun hj => hok ⟨ha, hj⟩) fun hno => hrefused fun hj => hno hj.2

namespace Joinable

theorem linked (h : w.Linked) (hj : w.Joinable links) : (w.joined links).Linked := by
  induction links generalizing w with
  | nil => exact h
  | cons link rest ih => exact ih (hj.1.linked h) hj.2

/-- Every connection is there in the end, and nothing else is new. -/
theorem parent?_joined (hj : w.Joinable links) : (w.joined links).parent? x = some place ↔
    w.parent? x = some place ∨ ∃ link ∈ links, link.child = x ∧ link.place = place := by
  induction links generalizing w with
  | nil => simp [joined]
  | cons link rest ih =>
    refine (ih hj.2).trans ?_
    rw [parent?_attached hj.1.has_child, List.exists_mem_cons_iff]
    split
    · rename_i hx
      subst hx
      simp [hj.1.free]
    · rename_i hx
      simp [Ne.symm hx]

/-- A block that is put somewhere had been free before. -/
theorem free (hj : w.Joinable links) (hl : link ∈ links) : w.parent? link.child = none := by
  induction links generalizing w with
  | nil => simp at hl
  | cons first rest ih =>
    rcases List.mem_cons.mp hl with rfl | hl
    · exact hj.1.free
    · have hfree := ih hj.2 hl
      rw [parent?_attached hj.1.has_child] at hfree
      split at hfree
      · cases hfree
      · exact hfree

/-- No connection is made twice. -/
theorem nodup (hj : w.Joinable links) : links.Nodup := by
  induction links generalizing w with
  | nil => exact .nil
  | cons link rest ih =>
    refine List.nodup_cons.mpr ⟨fun hl => ?_, ih hj.2⟩
    have hfree := hj.2.free hl
    simp [parent?_attached hj.1.has_child] at hfree

end Joinable

/-- A connection does not make room for another one. -/
theorem Admits.of_attached (ha : w.Admits a) (hb : (w.attached a.place a.child).Admits link) :
    w.Admits link := by
  have hfree := hb.free
  have hvacant := hb.vacant
  rw [parent?_attached ha.has_child] at hfree
  rw [occupant?_attached ha.offers] at hvacant
  refine ⟨?_, ?_, fun hu => hb.rooted (hu.mono fun _ _ => ha.keeps),
    hb.fits.congr bare?_attached.symm bare?_attached.symm, by simpa using hb.follows⟩
  · split at hfree
    · cases hfree
    · exact hfree
  · split at hvacant
    · cases hvacant
    · exact hvacant

/-- Of two connections the first one can be made last: if it closed a circle with the second one, then the
second one would close it after the first. -/
theorem Admits.attached (ha : w.Admits a) (hb : (w.attached a.place a.child).Admits link) :
    (w.attached link.place link.child).Admits a := by
  have hlink := ha.of_attached hb
  have hchild : a.child ≠ link.child := by
    intro he
    have hfree := hb.free
    rw [← he, parent?_attached ha.has_child, if_pos rfl] at hfree
    cases hfree
  have hplace : a.place ≠ link.place := by
    intro he
    have hvacant := hb.vacant
    rw [← he, occupant?_attached ha.offers, if_pos rfl] at hvacant
    cases hvacant
  refine ⟨?_, ?_, fun hu => ?_, ha.fits.congr bare?_attached bare?_attached, by simpa using ha.follows⟩
  · rw [parent?_attached hlink.has_child, if_neg hchild]
    exact ha.free
  · rw [occupant?_attached hlink.offers, if_neg hplace]
    exact ha.vacant
  · rcases hu.attached hlink.has_child with hu | ⟨habove, hbelow⟩
    · exact ha.rooted hu
    · have hstep : (w.attached a.place a.child).Under a.place.block a.child :=
        .of_parent (by simp [parent?_attached ha.has_child])
      have hkeep {x y : BlockId} (hu : w.Under x y) : (w.attached a.place a.child).Under x y :=
        hu.mono fun _ _ => ha.keeps
      exact hb.rooted (((hkeep habove).trans hstep).trans (hkeep hbelow))

private theorem Linked.attached_comm (h : w.Linked) (ha : w.Admits a)
    (hb : (w.attached a.place a.child).Admits link) :
    (w.attached link.place link.child).attached a.place a.child =
      (w.attached a.place a.child).attached link.place link.child := by
  have hlink := ha.of_attached hb
  have hlast := ha.attached hb
  refine (hb.linked (ha.linked h)).ext (hlast.linked (hlink.linked h)) (by simp) (by simp) (by simp)
    fun x => ?_
  rw [parent?_attached hlast.has_child, parent?_attached hlink.has_child,
    parent?_attached hb.has_child, parent?_attached ha.has_child]
  have hfree := hb.free
  rw [parent?_attached ha.has_child] at hfree
  by_cases hx : x = a.child <;> by_cases hx' : x = link.child <;> simp_all

/-- Connections that can be made can be made in any order, and make the same workspace. -/
theorem Joinable.perm (h : w.Linked) (hp : links.Perm links') (hj : w.Joinable links) :
    w.Joinable links' ∧ w.joined links' = w.joined links := by
  induction hp generalizing w with
  | nil => exact ⟨trivial, rfl⟩
  | cons link _ ih =>
    obtain ⟨hj', he⟩ := ih (hj.1.linked h) hj.2
    exact ⟨⟨hj.1, hj'⟩, he⟩
  | swap a b rest =>
    obtain ⟨hb, ha, hrest⟩ := hj
    have hcomm := h.attached_comm hb ha
    refine ⟨⟨hb.of_attached ha, hb.attached ha, hcomm ▸ hrest⟩, ?_⟩
    exact congrArg (joined · rest) hcomm
  | trans _ _ ih ih' =>
    obtain ⟨hj', he⟩ := ih h hj
    obtain ⟨hj'', he'⟩ := ih' h hj'
    exact ⟨hj'', he'.trans he⟩

end Workspace

end BlockProgram
