import BlockProgram.Proofs.Workspace.Loss
import BlockProgram.Workspace.Edit

/-! The edits that leave shapes as they are keep a workspace sound, also when they are refused half-way
and also when links already form a circle. -/
namespace BlockProgram.Workspace

open Edit

variable {rooted typed : Prop} {w : Workspace} {id x c p : BlockId} {s : String}
  {place : Attachment}

section add

variable {b : Block}

def added (w : Workspace) (b : Block) : Workspace := { w with blocks := w.blocks ++ [b] }

theorem find?_added (hn : ¬ w.has b.id) :
    (w.added b).find? x = if x = b.id then some b else w.find? x := by
  have hnone : w.find? b.id = none := by simpa [has] using hn
  unfold find? at hnone ⊢
  simp only [added, List.find?_append]
  by_cases hx : x = b.id
  · simp [hx, hnone]
  · simp [hx, Ne.symm hx]

private theorem bare?_added (hn : ¬ w.has b.id) (hb : b.bare = b) :
    (w.added b).bare? x = if x = b.id then some b else w.bare? x := by
  simp only [bare?, find?_added hn]
  split
  · exact congrArg some hb
  · rfl

private theorem parent?_added (hn : ¬ w.has b.id) (hb : b.bare = b) :
    (w.added b).parent? x = w.parent? x := by
  have hnone : w.find? b.id = none := by simpa [has] using hn
  simp only [parent?, find?_added hn]
  split
  · rename_i hx
    have htop : b.parent = none := (congrArg Block.parent hb).symm
    simp [hx, hnone, htop]
  · rfl

private theorem occupant?_added (hn : ¬ w.has b.id) (hb : b.bare = b) :
    (w.added b).occupant? place = w.occupant? place := by
  have hnone : w.find? b.id = none := by simpa [has] using hn
  cases place with
  | input p s =>
    simp only [occupant?, find?_added hn]
    split
    · rename_i hx
      simpa [hx, hnone] using hb ▸ b.target?_bare s
    · rfl
  | next p =>
    simp only [occupant?, find?_added hn]
    split
    · rename_i hx
      have hlast : b.next = none := (congrArg Block.next hb).symm
      simp [hx, hnone, hlast]
    · rfl

private theorem Linked.added (h : w.Linked) (hn : ¬ w.has b.id) (hb : b.bare = b)
    (hnames : (b.sockets.map (·.name)).Nodup) : (w.added b).Linked where
  nodup := by
    have hids : (w.added b).ids = w.ids ++ [b.id] := by simp [ids, Workspace.added]
    rw [hids]
    simpa using List.Nodup.concat (fun hm => hn (has_iff_mem_ids.mpr hm)) h.nodup
  names x d hd := by
    rw [bare?_added hn hb] at hd
    split at hd
    · exact Option.some.inj hd ▸ hnames
    · exact h.names x d hd
  link q c := by rw [occupant?_added hn hb, parent?_added hn hb, h.link]

/-- A block without links may come in at the top. -/
theorem Sound.added (h : Sound rooted typed w) (hn : ¬ w.has b.id) (hb : b.bare = b)
    (hshaped : Shaped w.shapes b) : Sound rooted typed (w.added b) := by
  have hkeep {x : BlockId} (hx : w.has x) : (w.added b).bare? x = w.bare? x := by
    rw [bare?_added hn hb, if_neg fun he : x = b.id => hn (he ▸ hx)]
  have hlinked : (w.added b).Linked := by
    obtain ⟨shape, hshape, hsockets, -⟩ := hshaped
    exact h.linked.added hn hb (hsockets ▸ h.distinct shape (ShapeRegistry.mem_of_get? hshape).1 _)
  exact
    { distinct := h.distinct
      regular := h.regular
      linked := hlinked
      shaped := fun x d hd => by
        rw [bare?_added hn hb] at hd
        split at hd
        · exact Option.some.inj hd ▸ hshaped
        · exact h.shaped x d hd
      follows := fun q c hq => by
        rw [parent?_added hn hb] at hq
        obtain ⟨d, hd, hnext⟩ := h.follows q c hq
        exact ⟨d, (hkeep (h.linked.has_block hq)).trans hd, hnext⟩
      acyclic := fun hr => (h.acyclic hr).mono hlinked fun x q hq => parent?_added hn hb ▸ hq
      fits := fun q c hq => by
        rw [parent?_added hn hb] at hq
        exact (h.fits q c hq).congr (hkeep (h.linked.has_block hq)) (hkeep (has_of_parent? hq)) }

private theorem bare_freshBlock (shape : Shape) (id : BlockId) (type : String) (shadow : Bool) :
    (freshBlock shape id type shadow).bare = freshBlock shape id type shadow := by
  simp [Block.bare, freshBlock, Shape.map_emptied_layout]

private theorem free_of_not_has (hid : ¬ w.has id) : w.Free id where
  parent := by
    cases hp : w.parent? id with
    | none => rfl
    | some place => exact absurd (has_of_parent? hp) hid
  occupant place he := occupant?_of_not_has (he ▸ hid)

/-- A block that has been added has no links yet. -/
theorem Sound.ensures_add (h : Sound rooted typed w) (id : BlockId) (type : String)
    (shadow : Bool) : (add id type shadow).Ensures w
      (fun _ w' => Sound rooted typed w' ∧ w'.Free id) fun _ w' => Sound rooted typed w' := by
  unfold add
  rw [ensures_bind, ensures_get]
  by_cases hid : w.has id
  · rw [if_pos hid]
    exact h
  · rw [if_neg hid]
    cases hshape : w.shapes.get? type with
    | none => exact h
    | some shape =>
      have hfree := free_of_not_has hid
      have hbare := bare_freshBlock shape id type shadow
      exact ⟨h.added (b := freshBlock shape id type shadow) hid hbare ⟨shape, hshape, rfl, rfl⟩,
        (parent?_added (b := freshBlock shape id type shadow) hid hbare).trans hfree.parent,
        fun place he => (occupant?_added (b := freshBlock shape id type shadow) hid hbare).trans
          (hfree.occupant place he)⟩

theorem keeps_add (id : BlockId) (type : String) (shadow : Bool) :
    (add id type shadow).Keeps (Sound rooted typed) :=
  fun _ h => (h.ensures_add id type shadow).mono (fun _ _ h' => h'.1) fun _ _ h' => h'

end add

theorem occupant?_of_next {b : Block} {q : BlockId} (hb : w.find? id = some b)
    (hn : b.next = some q) : w.occupant? (.next id) = some q := by
  simp [occupant?, hb, hn]

theorem occupant?_of_socket? {b : Block} {k : Socket} {q : BlockId} (hb : w.find? p = some b)
    (hk : b.socket? s = some k) (ht : k.target = some q) :
    w.occupant? (.input p s) = some q := by
  simp [occupant?, hb, Block.target?, hk, ht]

/-- How an edit of a block that does not exist is refused. -/
def Unknown (w : Workspace) (id : BlockId) (err : EditError) (w' : Workspace) : Prop :=
  err = .unknownBlock id ∧ ¬ w.has id ∧ w' = w

private theorem unknown_of_find? (h : w.find? id = none) : w.Unknown id (.unknownBlock id) w :=
  ⟨rfl, by simp [has, h], rfl⟩

theorem Unknown.keeps {err : EditError} {w' : Workspace} {P : Workspace → Prop}
    (h : w.Unknown id err w') (hw : P w) : P w' := h.2.2 ▸ hw

theorem Sound.ensures_disconnect (h : Sound rooted typed w) (id : BlockId) :
    (disconnect id).Ensures w (fun _ w' => Sound rooted typed w') (w.Unknown id) := by
  unfold disconnect
  rw [h.linked.ensures_detach]
  cases hb : w.find? id with
  | none => exact unknown_of_find? hb
  | some _ => exact h.detached id

theorem keeps_disconnect (id : BlockId) : (disconnect id).Keeps (Sound rooted typed) :=
  fun _ h => (h.ensures_disconnect id).mono (fun _ _ h' => h') fun _ _ h' => h'.keeps h

/-- An expression is not followed by a block. -/
theorem Sound.occupant?_next_of_output (h : Sound rooted typed w) (ht : typed) {d : Block}
    (hd : w.bare? id = some d) (ho : d.connectors.output) : w.occupant? (.next id) = none := by
  refine Option.eq_none_iff_forall_ne_some.mpr fun q hq => ?_
  obtain ⟨d', hd', hnext⟩ := h.follows _ _ ((h.linked.link _ _).mp hq)
  obtain rfl := Option.some.inj (hd.symm.trans hd')
  obtain ⟨shape, hshape, -, hconn⟩ := h.shaped _ _ hd
  have hexpression := (h.regular ht).expression shape (ShapeRegistry.mem_of_get? hshape).1 d.mutation
  rw [← hconn] at hexpression
  simp [hexpression ho] at hnext

/-- The block after another one may take its place. -/
theorem Sound.fits_heal (h : Sound rooted typed w) {q : BlockId}
    (hplace : w.parent? id = some place) (hq : w.parent? q = some (.next id)) :
    w.Fits typed place q := by
  have hfits := h.fits _ _ hplace
  obtain ⟨d, hd, hprev⟩ := h.fits _ _ hq
  cases place with
  | next before => exact ⟨d, hd, hprev⟩
  | input above socket =>
    obtain ⟨b, k, self, hb, hk, hself, hplain, htakes⟩ := hfits
    refine ⟨b, k, d, hb, hk, hd, hplain, fun ht => ?_⟩
    replace htakes := htakes ht
    unfold Socket.takes at htakes ⊢
    split at htakes
    · have hno := h.occupant?_next_of_output ht hself (Bool.and_eq_true_iff.mp htakes).1
      simp [(h.linked.link _ _).mpr hq] at hno
    · exact hprev ht
    · cases htakes

/-- What unplugging a block leads to. The block may be left in one place: after itself. -/
structure Unplugged (rooted typed : Prop) (w : Workspace) (id : BlockId) (w' : Workspace) :
    Prop where
  sound : Sound rooted typed w'
  shapes : w'.shapes = w.shapes
  bare : ∀ x, w'.bare? x = w.bare? x
  loose : ∀ place, w'.parent? id = some place → place = .next id
  /-- Blocks stay in their places, but the one after the block may take its place. -/
  parent : ∀ x place, w'.parent? x = some place → w.parent? x = some place ∨
    w.parent? x = some (.next id) ∧ w.parent? id = some place
  kept : ∀ x, x ≠ id → w.parent? x ≠ some (.next id) → w'.parent? x = w.parent? x

/-- Nothing is beneath more blocks than it was. -/
theorem Unplugged.under {w' : Workspace} {a : BlockId} (h : Unplugged rooted typed w id w')
    (hu : w'.Under a x) : w.Under a x := by
  induction hu with
  | self => exact .self
  | step hp _ ih =>
    rcases h.parent _ _ hp with hp' | ⟨hnext, hplace⟩
    · exact .step hp' ih
    · exact .step hnext (.step hplace ih)

/-- What is lost after a block was unplugged is lost of the workspace before. -/
theorem Unplugged.sheds {w' w'' : Workspace} (h : Unplugged rooted typed w id w')
    (hs : w'.Sheds w'') : w.Sheds w'' := by
  intro x hx
  refine (hs x (by rwa [has_congr (h.bare _)])).imp_right ?_
  rintro ⟨c, hc, hgone, hu⟩
  exact ⟨c, by rwa [standIn_eq, ← h.bare, ← standIn_eq], hgone, h.under hu⟩

private theorem Sound.unplugged (h : Sound rooted typed w) (id : BlockId) :
    Unplugged rooted typed w id (w.detached id) where
  sound := h.detached id
  shapes := shapes_detached
  bare _ := bare?_detached
  loose := by simp [parent?_detached]
  parent x place hp := .inl ((pruned_detached w id).parent x place hp)
  kept x hx _ := by rw [parent?_detached, if_neg hx]

/-- The workspace with a block out of its place, and the block after it in that place. -/
def healed (w : Workspace) (id : BlockId) : Workspace :=
  match w.occupant? (.next id) with
  | none => w.detached id
  | some q =>
    match w.parent? id with
    | none => (w.detached id).detached q
    | some place => ((w.detached id).detached q).attached place q

@[simp] theorem shapes_healed : (w.healed id).shapes = w.shapes := by
  unfold healed
  split
  · simp
  · split <;> simp

@[simp] theorem ids_healed : (w.healed id).ids = w.ids := by
  unfold healed
  split
  · simp
  · split <;> simp

@[simp] theorem bare?_healed : (w.healed id).bare? x = w.bare? x := by
  unfold healed
  split
  · simp
  · split <;> simp

/-- The block after an unplugged one moves into the place. -/
theorem Sound.healed (h : Sound rooted typed w) (id : BlockId) :
    Unplugged rooted typed w id (w.healed id) := by
  unfold Workspace.healed
  cases hnext : w.occupant? (.next id) with
  | none => exact h.unplugged id
  | some q =>
    have hq := (h.linked.link _ _).mp hnext
    have hpruned : Pruned w ((w.detached id).detached q) :=
      (pruned_detached w id).trans (pruned_detached _ q)
    have hbare (x : BlockId) : ((w.detached id).detached q).bare? x = w.bare? x := by simp
    cases hplace : w.parent? id with
    | none =>
      refine ⟨(h.detached id).detached q, by simp, hbare, by simp [parent?_detached],
        fun x place hp' => .inl (hpruned.parent x place hp'), fun x hx hx' => ?_⟩
      have hne : x ≠ q := fun he => hx' (he ▸ hq)
      rw [parent?_detached, if_neg hne, parent?_detached, if_neg hx]
    | some place =>
      have hocc := (h.linked.link place id).mpr hplace
      have hhas : ((w.detached id).detached q).has q := by simp [has_of_parent? hq]
      refine ⟨((h.detached id).detached q).attached ?_ ?_ hhas (by simp [parent?_detached]) ?_ ?_ ?_,
        by simp, by simp, fun place' hp' => ?_, fun x place' hp' => ?_, fun x hx hx' => ?_⟩
      · exact (offers_congr (hbare _)).trans (offers_of_occupant? hocc)
      · rw [(h.detached id).linked.occupant?_detached, h.linked.occupant?_detached, hocc]
        simp
      · rintro before rfl
        exact (hbare before).symm ▸ h.follows before id hplace
      · intro hr hu
        exact (h.acyclic hr).not_under hplace ((Under.of_parent hq).trans (hpruned.under hu))
      · exact (h.fits_heal hplace hq).congr (hbare _) (hbare _)
      · rw [parent?_attached hhas] at hp'
        split at hp'
        · rename_i he
          rw [← Option.some.inj hp']
          exact Option.some.inj (hplace.symm.trans ((congrArg w.parent? he).trans hq))
        · simp [parent?_detached] at hp'
      · rw [parent?_attached hhas] at hp'
        split at hp'
        · rename_i he
          exact .inr ⟨he ▸ hq, hplace.trans hp'⟩
        · exact .inl (hpruned.parent x place' hp')
      · have hne : x ≠ q := fun he => hx' (he ▸ hq)
        rw [parent?_attached hhas, if_neg hne, parent?_detached, if_neg hne, parent?_detached,
          if_neg hx]

/-- A block that exists is unplugged, and the gap is closed. -/
theorem Linked.ensures_unplug (h : w.Linked) {ok : Unit → Workspace → Prop}
    {refused : EditError → Workspace → Prop} (hok : w.has id → ok () (w.healed id))
    (hrefused : w.find? id = none → refused (.unknownBlock id) w) :
    (unplug id true).Ensures w ok refused := by
  unfold unplug
  rw [ensures_bind, ensures_require]
  cases hb : w.find? id with
  | none => exact hrefused hb
  | some b =>
    have hok := hok (has_iff.mpr ⟨b, hb⟩)
    have hnext : w.occupant? (.next id) = b.next := by simp [occupant?, hb]
    have hparent : w.parent? id = b.parent := by simp [parent?, hb]
    simp only [↓reduceIte, ensures_bind, h.ensures_detach, hb]
    unfold Workspace.healed at hok
    rw [hnext, hparent] at hok
    cases hn : b.next with
    | none =>
      rw [hn] at hok
      exact hok
    | some q =>
      have hq : (w.detached id).has q :=
        has_detached.trans (has_of_parent? ((h.link _ _).mp (hnext.trans hn)))
      obtain ⟨d, hd⟩ := has_iff.mp hq
      rw [hn] at hok
      simp only [ensures_bind, (h.detached id).ensures_detach, hd]
      cases hp : b.parent with
      | none =>
        rw [hp] at hok
        exact hok
      | some place =>
        have hplace := (h.link _ _).mpr (hparent.trans hp)
        have hoffers : ((w.detached id).detached q).offers place :=
          (offers_congr (by simp)).trans (offers_of_occupant? hplace)
        rw [hp] at hok
        cases place with
        | input above socket =>
          exact ensures_attachInput (by simpa using hq) (fun _ => hok) fun hno => absurd hoffers hno
        | next before => exact ensures_attachNext hoffers (by simpa using hq) hok

/-- Unplugging succeeds for every block that is there, and leaves it out of its place. -/
theorem Sound.ensures_unplug (h : Sound rooted typed w) (heal : Bool) :
    (unplug id heal).Ensures w (fun _ => Unplugged rooted typed w id) (w.Unknown id) := by
  cases heal with
  | true => exact h.linked.ensures_unplug (fun _ => h.healed id) unknown_of_find?
  | false =>
    unfold unplug
    rw [ensures_bind, ensures_require]
    cases hb : w.find? id with
    | none => exact unknown_of_find? hb
    | some b =>
      dsimp only
      rw [ensures_bind, h.linked.ensures_detach, hb]
      exact h.unplugged id

theorem keeps_unplug (id : BlockId) (heal : Bool) :
    (unplug id heal).Keeps (Sound rooted typed) :=
  fun _ h => (h.ensures_unplug heal).mono (fun _ _ h' => h'.sound) fun _ _ h' => h'.keeps h

/-- Deleting succeeds for every block that is there. -/
theorem Sound.ensures_delete (h : Sound rooted typed w) (id : BlockId) (heal : Bool) :
    (delete id heal).Ensures w (fun _ w' => Sound rooted typed w') (w.Unknown id) := by
  have hdrop (w : Workspace) (h : Sound rooted typed w) (hid : w.has id)
      (hloose : ∀ place, w.parent? id = some place → place = .next id) :
      Sound rooted typed (w.withoutSubtree id) :=
    h.of_pruned (pruned_withoutSubtree w id)
      (h.linked.withoutSubtree hid fun place hp => hloose place hp ▸ .self)
  unfold delete
  cases hb : w.find? id with
  | none =>
    cases heal
    · simp only [Bool.false_eq_true, ↓reduceIte, ensures_bind, h.linked.ensures_detach, hb]
      exact unknown_of_find? hb
    · simp only [↓reduceIte, ensures_bind, unplug, ensures_require, hb]
      exact unknown_of_find? hb
  | some b =>
    have hid : w.has id := has_iff.mpr ⟨b, hb⟩
    cases heal
    · simp only [Bool.false_eq_true, ↓reduceIte, ensures_bind, h.linked.ensures_detach, hb]
      exact hdrop _ (h.detached id) (by simpa using hid) (by simp [parent?_detached])
    · simp only [↓reduceIte, ensures_bind]
      refine (h.ensures_unplug true).mono (fun _ w' h' => ?_) fun _ _ h' => h'
      exact hdrop w' h'.sound (by rwa [has_congr (h'.bare _)]) h'.loose

theorem keeps_delete (id : BlockId) (heal : Bool) :
    (delete id heal).Keeps (Sound rooted typed) :=
  fun _ h => (h.ensures_delete id heal).mono (fun _ _ h' => h') fun _ _ h' => h'.keeps h

theorem ensures_requireSocket {kind : SocketKind} {ok : Socket → Workspace → Prop}
    {refused : EditError → Workspace → Prop}
    (hok : ∀ b k, w.find? p = some b → b.socket? s = some k → k.kind = kind → ok k w)
    (hrefused : (∀ b k, w.find? p = some b → b.socket? s = some k → k.kind ≠ kind) →
      ∀ err, refused err w) : (requireSocket p s kind).Ensures w ok refused := by
  unfold requireSocket
  rw [ensures_bind, ensures_require]
  cases hb : w.find? p with
  | none => exact hrefused (fun b k hb' => by simp [hb] at hb') _
  | some b =>
    dsimp only
    cases hk : b.socket? s with
    | none =>
      refine hrefused (fun b' k hb' hk' => ?_) _
      obtain rfl := Option.some.inj (hb.symm.trans hb')
      simp [hk] at hk'
    | some k =>
      dsimp only
      split
      · rename_i hkind
        exact hok b k hb hk hkind
      · rename_i hkind
        refine hrefused (fun b' k' hb' hk' => ?_) _
        obtain rfl := Option.some.inj (hb.symm.trans hb')
        obtain rfl := Option.some.inj (hk.symm.trans hk')
        exact hkind

theorem fits_input {b d : Block} {k : Socket} (hb : w.find? p = some b) (hk : b.socket? s = some k)
    (hd : w.find? c = some d) (ht : k.takes d.connectors) : w.Fits typed (.input p s) c :=
  ⟨b.bare, k.emptied, d.bare, bare?_of_find? hb, by simp [Block.socket?_bare, hk],
    bare?_of_find? hd, fun hk => by simp [Socket.takes, show k.kind = .dummy from hk] at ht,
    fun _ => ht⟩

/-- What fits a socket is taken by it. -/
theorem Fits.takes {b : Block} {k : Socket} (h : w.Fits True (.input p s) c)
    (hb : w.find? p = some b) (hk : b.socket? s = some k) :
    ∃ d, w.bare? c = some d ∧ k.takes d.connectors := by
  obtain ⟨_, k', d, hb', hk', hd, -, ht⟩ := h
  rw [bare?, hb] at hb'
  obtain rfl := Option.some.inj hb'
  rw [Block.socket?_bare, hk] at hk'
  obtain rfl := Option.some.inj hk'
  exact ⟨d, hd, ht trivial⟩

theorem fits_next {d : Block} (hd : w.find? c = some d) (ht : d.connectors.previous) :
    w.Fits typed (.next p) c :=
  ⟨d.bare, bare?_of_find? hd, fun _ => ht⟩

/-- A free block is plugged into an empty socket. -/
theorem Sound.ensures_attachInput (h : Sound rooted typed w) (hc : w.has c)
    (htop : w.parent? c = none) (hfree : w.occupant? (.input p s) = none)
    (hrooted : rooted → ¬ w.Under c p)
    (hfits : w.has p → w.Fits typed (.input p s) c) :
    (attachInput p s c).Ensures w (fun _ w' => Sound rooted typed w')
      fun _ w' => w' = w ∧ ¬ w.offers (.input p s) :=
  Workspace.ensures_attachInput hc
    (fun hp => h.attached hp hfree hc htop (by simp) hrooted (hfits (has_of_offers hp)))
    fun hno _ => ⟨rfl, hno⟩

/-- The workspace with a block out of its place, and whatever is in a place severed. -/
def displaced (w : Workspace) (place : Attachment) (c : BlockId) : Workspace :=
  match w.occupant? place with
  | none => w.detached c
  | some old => (w.detached c).severed old

/-- What `connectValue` does once its checks are passed. -/
theorem Linked.ensures_connectValue (h : w.Linked) {ok : Unit → Workspace → Prop}
    {refused : EditError → Workspace → Prop}
    (hsame : w.occupant? (.input p s) = some c → ok () w) (hrefused : ∀ err, refused err w)
    (hplug : ∀ b k d, w.find? p = some b → b.socket? s = some k → w.find? c = some d →
      k.takes d.connectors → w.occupant? (.input p s) ≠ some c → ¬ w.Under c p →
      (attachInput p s c).Ensures (w.displaced (.input p s) c) ok refused) :
    (connectValue p s c).Ensures w ok refused := by
  unfold connectValue
  rw [ensures_bind]
  refine ensures_requireSocket (fun b k hb hk hkind => ?_) fun _ => hrefused
  rw [ensures_bind, ensures_require]
  cases hd : w.find? c with
  | none => exact hrefused _
  | some d =>
    dsimp only
    split
    · exact hrefused _
    rename_i hout
    split
    · exact hrefused _
    rename_i htypes
    have htarget : w.occupant? (.input p s) = k.target := by
      simp [occupant?, hb, Block.target?, hk]
    split
    case isFalse hsame' => exact hsame (htarget.trans (by simpa using hsame'))
    rename_i hne
    rw [ensures_bind]
    refine ensures_refuseCycle (fun hu => ?_) fun _ => hrefused _
    have hplug := hplug b k d hb hk hd (by simp_all [Socket.takes]) (htarget ▸ hne) hu
    rw [ensures_bind, h.ensures_detach, hd]
    unfold displaced at hplug
    rw [htarget] at hplug
    cases ht : k.target with
    | none =>
      rw [ht] at hplug
      exact hplug
    | some old =>
      have hhas : (w.detached c).has old := by
        simpa using has_of_parent? ((h.link _ _).mp (htarget.trans ht))
      obtain ⟨o, ho⟩ := has_iff.mp hhas
      rw [ht] at hplug
      simp only [ensures_bind, (h.detached c).ensures_sever, ho]
      exact hplug

private theorem pruned_displaced (w : Workspace) (place : Attachment) (c : BlockId) :
    Pruned (w.detached c) (w.displaced place c) := by
  unfold displaced
  split
  · exact .refl _
  · exact pruned_severed _ _

section displaced

variable (h : w.Linked)
include h

private theorem Linked.has_occupant {old : BlockId} (hold : w.occupant? place = some old) :
    (w.detached c).has old := by
  simpa using has_of_parent? ((h.link _ _).mp hold)

private theorem Linked.displaced : (w.displaced place c).Linked := by
  unfold Workspace.displaced
  split
  · exact h.detached c
  · rename_i old hold
    exact (h.detached c).severed (h.has_occupant hold)

private theorem Linked.vacant_displaced : (w.displaced place c).occupant? place = none := by
  have hpruned := (pruned_detached w c).trans (pruned_displaced w place c)
  cases hold : w.occupant? place with
  | none => exact hpruned.vacant h h.displaced hold
  | some old =>
    refine hpruned.vacated h h.displaced hold ?_
    simp [Workspace.displaced, hold, parent?_severed_self]

/-- What is in a place is no more beneath a block than the place is. -/
theorem Linked.not_under_occupant (hne : w.occupant? place ≠ some c) (hu : ¬ w.Under c place.block) :
    ∀ old ∈ w.occupant? place, ¬ w.Under c old := by
  intro old hold hc
  cases hc with
  | self => exact hne hold
  | step hp hc => exact hu (Option.some.inj (((h.link _ _).mp hold).symm.trans hp) ▸ hc)

/-- What is in the place goes if it is a stand-in, but nothing goes that is beneath the other block. -/
theorem Linked.has_displaced (hne : w.occupant? place ≠ some c) (hu : ¬ w.Under c place.block)
    (x : BlockId) : (w.displaced place c).has x ↔ w.has x ∧
      ¬ ∃ old ∈ w.occupant? place, w.standIn old ∧ w.Under old x ∧ ¬ w.Under c x := by
  unfold Workspace.displaced
  cases hold : w.occupant? place with
  | none => simp
  | some old =>
    simp only [(h.detached c).has_severed_iff (h.has_occupant hold), has_detached, standIn_detached,
      under_detached (h.not_under_occupant hne hu old hold), Option.mem_some_iff, exists_eq_left']

end displaced

/-- In a forest a refusal comes before anything is written. Where links form a circle, the block that
the socket held may be deleted together with the one that has the socket. -/
theorem Sound.ensures_connectValue (h : Sound rooted typed w) (p : BlockId) (s : String)
    (c : BlockId) : (connectValue p s c).Ensures w (fun _ w' => Sound rooted typed w')
      fun _ w' => Sound rooted typed w' ∧ (rooted → w' = w) := by
  refine h.linked.ensures_connectValue (fun _ => h) (fun _ => ⟨h, fun _ => rfl⟩) fun b k d hb hk hd ht hne hu => ?_
  have hc : w.has c := has_iff.mpr ⟨d, hd⟩
  have hpruned := (pruned_detached w c).trans (pruned_displaced w (.input p s) c)
  have h' : Sound rooted typed (w.displaced (.input p s) c) := h.of_pruned hpruned h.linked.displaced
  have hc' : (w.displaced (.input p s) c).has c :=
    (h.linked.has_displaced hne hu c).mpr ⟨hc, fun ⟨_, _, _, _, hno⟩ => hno .self⟩
  have htop : (w.displaced (.input p s) c).parent? c = none :=
    (pruned_displaced w (.input p s) c).top (by simp [parent?_detached])
  refine (h'.ensures_attachInput hc' htop h.linked.vacant_displaced
    (fun _ hu' => hu (hpruned.under hu')) fun hp => hpruned.fits (fits_input hb hk hd ht) hp hc').mono
      (fun _ _ h'' => h'') fun _ w' h'' => ?_
  obtain ⟨rfl, hno⟩ := h''
  refine ⟨h', fun hr => absurd ?_ hno⟩
  have hp : (w.displaced (.input p s) c).has p := by
    refine (h.linked.has_displaced hne hu p).mpr ⟨has_iff.mpr ⟨b, hb⟩, ?_⟩
    rintro ⟨old, hold, -, hu', -⟩
    exact (h.acyclic hr).not_under ((h.linked.link _ _).mp hold) hu'
  have hoffers : (w.displaced (.input p s) c).offers (.input p s) = w.offers (.input p s) :=
    offers_congr (hpruned.bare?_eq hp)
  rw [hoffers]
  simp [offers, hb, hk]

theorem keeps_connectValue (p : BlockId) (s : String) (c : BlockId) :
    (connectValue p s c).Keeps (Sound rooted typed) :=
  fun _ h => (h.ensures_connectValue p s c).mono (fun _ _ h' => h') fun _ _ h' => h'.1

end BlockProgram.Workspace
