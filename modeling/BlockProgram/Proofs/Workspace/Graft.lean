import BlockProgram.Proofs.Workspace.Edit

/-! A chain takes a place, and the chain that was there follows it where it can. The two edits that do so
differ in their checks only. -/
namespace BlockProgram.Workspace

open Edit

variable {rooted typed : Prop} {w : Workspace} {x c p : BlockId} {s : String} {place : Attachment}

/-- The workspace with `c` in a place, and what was there out of it. -/
def regrafted (w : Workspace) (place : Attachment) (c : BlockId) : Workspace :=
  match w.occupant? place with
  | none => (w.detached c).attached place c
  | some old => ((w.detached c).detached old).attached place c

def joins (w : Workspace) (last tail : BlockId) : Bool :=
  (w.bare? last).any (·.connectors.next) && (w.bare? tail).any (·.connectors.previous)

/-- The workspace with `c` in a place, and what was there after the last block of its chain if it can be. -/
def spliced (w : Workspace) (place : Attachment) (c : BlockId) : Workspace :=
  let w' := w.regrafted place c
  match w.occupant? place with
  | none => w'
  | some old =>
    if w'.joins (w'.lastInChain c) old then w'.attached (.next (w'.lastInChain c)) old else w'

/-- What is checked before a chain is moved to a place where it is not yet. -/
structure Graftable (w : Workspace) (place : Attachment) (c : BlockId) : Prop where
  offers : w.offers place
  child : w.has c
  ne : w.occupant? place ≠ some c
  above : ¬ w.Under c place.block
  fits : w.Fits True place c
  /-- The place is for statements. -/
  previous : ∀ x, w.Fits True place x → ∃ d, w.bare? x = some d ∧ d.connectors.previous
  follows : ∀ q, place = .next q → ∃ b, w.bare? q = some b ∧ b.connectors.next

@[simp] theorem shapes_regrafted : (w.regrafted place c).shapes = w.shapes := by
  unfold regrafted
  split <;> simp

@[simp] theorem ids_regrafted : (w.regrafted place c).ids = w.ids := by
  unfold regrafted
  split <;> simp

@[simp] theorem bare?_regrafted : (w.regrafted place c).bare? x = w.bare? x := by
  unfold regrafted
  split <;> simp

@[simp] theorem has_regrafted : (w.regrafted place c).has x = w.has x :=
  has_congr bare?_regrafted

namespace Graftable

variable {old : BlockId}

private theorem previous_of_find? {d : Block} (h : w.Graftable place c) (hd : w.find? c = some d) :
    d.connectors.previous := by
  obtain ⟨_, hd', hprev⟩ := h.previous c h.fits
  obtain rfl := eq_bare_of_find? hd hd'
  exact hprev

private theorem next_of_find? {b : Block} (h : w.Graftable (.next p) c) (hb : w.find? p = some b) :
    b.connectors.next := by
  obtain ⟨_, hb', hnext⟩ := h.follows p rfl
  obtain rfl := eq_bare_of_find? hb hb'
  exact hnext

theorem parent?_regrafted (h : w.Graftable place c) : (w.regrafted place c).parent? x =
    if x = c then some place else if w.occupant? place = some x then none else w.parent? x := by
  have hc (old : BlockId) : ((w.detached c).detached old).has c := by simp [h.child]
  unfold regrafted
  split
  · rename_i hnone
    rw [parent?_attached (by simp [h.child]), parent?_detached, hnone]
    grind
  · rename_i old hold
    rw [parent?_attached (hc old), parent?_detached, parent?_detached, hold]
    grind

private theorem under_regrafted {a : BlockId} (h : w.Graftable place c)
    (hu : (w.regrafted place c).Under a x) :
    w.Under a x ∨ w.Under c x ∧ w.Under a place.block := by
  induction hu with
  | self => exact .inl .self
  | @step x q hp _ ih =>
    rw [h.parent?_regrafted] at hp
    split at hp
    · rename_i hx
      cases hp
      exact .inr ⟨hx ▸ .self, ih.elim id (·.2)⟩
    · split at hp
      · cases hp
      · exact ih.imp (.step hp) fun ⟨hc, ha⟩ => ⟨.step hp hc, ha⟩

private theorem not_under_regrafted (h : w.Graftable place c) :
    ¬ (w.regrafted place c).Under c place.block :=
  fun hu => h.above ((h.under_regrafted hu).elim id (·.1))

end Graftable

/-- A chain that fits a place may come there, and what was there goes to the top. -/
theorem Sound.regrafted (h : Sound rooted typed w) (hg : w.Graftable place c) :
    Sound rooted typed (w.regrafted place c) := by
  have hfits := hg.fits.weaken fun _ : typed => trivial
  unfold Workspace.regrafted
  split
  · rename_i hfree
    have hpruned := pruned_detached w c
    refine (h.detached c).attached ?_ (hpruned.vacant h.linked (h.detached c).linked hfree)
      (by simp [hg.child]) (by simp [parent?_detached]) (fun q hq => ?_)
      (fun _ hu => hg.above (hpruned.under hu)) (hfits.congr bare?_detached bare?_detached)
    · exact (offers_congr bare?_detached).trans hg.offers
    · simpa using hg.follows q hq
  · rename_i old hold
    have hpruned := (pruned_detached w c).trans (pruned_detached _ old)
    have h2 := (h.detached c).detached old
    refine h2.attached ?_ (hpruned.vacated h.linked h2.linked hold (by simp [parent?_detached]))
      (by simp [hg.child]) (by simp [parent?_detached]) (fun q hq => ?_)
      (fun _ hu => hg.above (hpruned.under hu)) (hfits.congr (by simp) (by simp))
    · exact (offers_congr (by simp)).trans hg.offers
    · simpa using hg.follows q hq

/-- The chain that has come to a place goes to an end outside the chain that was there. -/
theorem Sound.last_regrafted (h : Sound rooted typed w) (hg : w.Graftable place c) :
    let w' := w.regrafted place c
    w'.has (w'.lastInChain c) ∧ w'.Under c (w'.lastInChain c) ∧
      w'.occupant? (.next (w'.lastInChain c)) = none := by
  refine (h.regrafted hg).linked.lastInChain (by simp [hg.child]) fun q hq => ?_
  rw [hg.parent?_regrafted, if_pos rfl] at hq
  cases hq
  exact hg.not_under_regrafted

/-- A chain takes a place, and the chain that was there follows it. -/
theorem Sound.spliced (h : Sound rooted typed w) (hg : w.Graftable place c) :
    Sound rooted typed (w.spliced place c) := by
  have h' := h.regrafted hg
  have hlast := h.last_regrafted hg
  unfold Workspace.spliced
  dsimp only
  split
  · exact h'
  rename_i old hold
  split
  case isFalse => exact h'
  rename_i hjoins
  obtain ⟨hnext, hprev⟩ := Bool.and_eq_true_iff.mp hjoins
  obtain ⟨b, hb, hnext⟩ := (Option.any_eq_true _ _).mp hnext
  obtain ⟨d, hd, hprev⟩ := (Option.any_eq_true _ _).mp hprev
  have hne : old ≠ c := fun he => hg.ne (he ▸ hold)
  have hparent := (h.linked.link _ _).mp hold
  have htop : (w.regrafted place c).parent? old = none := by
    rw [hg.parent?_regrafted, if_neg hne, if_pos hold]
  refine h'.attached hlast.1 hlast.2.2 (has_of_bare? hd) htop ?_ ?_ ⟨d, hd, fun _ => hprev⟩
  · rintro q ⟨⟩
    exact ⟨b, hb, hnext⟩
  · intro hr hu
    have hold' : (w.regrafted place c).Under old c := by
      rcases hlast.2.1.linear hu with hu' | hu'
      · exact absurd (hu'.eq_of_top htop) hne.symm
      · exact hu'
    cases hold' with
    | self => exact hne rfl
    | step hq hu' =>
      rw [hg.parent?_regrafted, if_pos rfl] at hq
      cases hq
      exact (h.acyclic hr).not_under hparent ((hg.under_regrafted hu').elim id (·.2))

section connect

variable {ok : Unit → Workspace → Prop} {refused : EditError → Workspace → Prop}

private theorem Sound.ensures_spliceAfterChain (h : Sound rooted typed w) (hg : w.Graftable place c)
    {old : BlockId} (hold : w.occupant? place = some old) (hok : ok () (w.spliced place c)) :
    (spliceAfterChain c old).Ensures (w.regrafted place c) ok refused := by
  obtain ⟨b, hb⟩ := has_iff.mp (h.last_regrafted hg).1
  have hhas : (w.regrafted place c).has old := by
    simpa using has_of_parent? ((h.linked.link _ _).mp hold)
  obtain ⟨o, ho⟩ := has_iff.mp hhas
  have hjoins : (w.regrafted place c).joins ((w.regrafted place c).lastInChain c) old =
      (b.connectors.next && o.connectors.previous) := by
    simp only [joins, bare?, hb, ho]
    rfl
  unfold Workspace.spliced at hok
  simp only [hold, hjoins] at hok
  unfold spliceAfterChain
  simp only [ensures_bind, ensures_get, ensures_require, hb]
  by_cases hnext : b.connectors.next
  · simp only [hnext, if_true, ensures_bind, ensures_require, ho]
    by_cases hprev : o.connectors.previous
    · rw [if_pos hprev]
      exact ensures_attachNext (h.last_regrafted hg).1 hhas (by simpa [hnext, hprev] using hok)
    · rw [if_neg hprev]
      simpa [hprev] using hok
  · rw [if_neg hnext]
    simpa [hnext] using hok

/-- A chain leaves its place for another one, and what is there follows it. -/
private def graft (c : BlockId) (content : Option BlockId) (attach : Edit EditError Unit) :
    Edit EditError Unit := do
  detach c
  if let some old := content then
    detach old
  attach
  if let some old := content then
    spliceAfterChain c old

private theorem Sound.ensures_graft (h : Sound rooted typed w) (hg : w.Graftable place c)
    {attach : Edit EditError Unit}
    (hattach : ∀ {w' : Workspace} {ok : Unit → Workspace → Prop}, (∀ x, w'.bare? x = w.bare? x) →
      ok () (w'.attached place c) → attach.Ensures w' ok refused)
    (hok : ok () (w.spliced place c)) :
    (graft c (w.occupant? place) attach).Ensures w ok refused := by
  obtain ⟨d, hd⟩ := has_iff.mp hg.child
  unfold graft
  rw [ensures_bind, h.linked.ensures_detach, hd]
  cases hold : w.occupant? place with
  | none =>
    rw [ensures_bind]
    refine hattach (fun _ => bare?_detached) ?_
    simpa [Workspace.spliced, Workspace.regrafted, hold] using hok
  | some old =>
    have hhas : (w.detached c).has old := by
      simpa using has_of_parent? ((h.linked.link _ _).mp hold)
    obtain ⟨o, ho⟩ := has_iff.mp hhas
    simp only [ensures_bind, (h.detached c).linked.ensures_detach, ho]
    refine hattach (fun _ => by simp) ?_
    simpa [Workspace.regrafted, hold] using h.ensures_spliceAfterChain hg hold hok

/-- What `connectStatement` does once its checks are passed. It is not refused where they are. -/
theorem Sound.ensures_connectStatement_graft (h : Sound rooted typed w)
    (hsame : w.occupant? (.input p s) = some c → ok () w)
    (hrefused : (w.Graftable (.input p s) c → ∀ b k, w.find? p = some b → b.socket? s = some k →
      k.kind ≠ .statement) → ∀ err, refused err w)
    (hok : w.Graftable (.input p s) c → ok () (w.spliced (.input p s) c)) :
    (connectStatement p s c).Ensures w ok refused := by
  unfold connectStatement
  rw [ensures_bind]
  refine ensures_requireSocket (fun b k hb hk hkind => ?_) fun hno => hrefused fun _ => hno
  replace hrefused (hno : ¬ w.Graftable (.input p s) c) (err : EditError) : refused err w :=
    hrefused (fun hg => absurd hg hno) err
  rw [ensures_bind, ensures_require]
  cases hd : w.find? c with
  | none => exact hrefused (fun hg => by simpa [has, hd] using hg.child) _
  | some d =>
    have hcontent : w.occupant? (.input p s) = k.target := by
      simp [occupant?, hb, Block.target?, hk]
    have htakes : k.takes d.connectors = d.connectors.previous := by simp [Socket.takes, hkind]
    dsimp only
    split
    · rename_i hprev
      exact hrefused (fun hg => by simp [hg.previous_of_find? hd] at hprev) _
    rename_i hprev
    split
    case isFalse hsame' => exact hsame (hcontent.trans (by simpa using hsame'))
    rename_i hne
    rw [ensures_bind]
    refine ensures_refuseCycle (fun hu => ?_) fun hu => hrefused (fun hg => hg.above hu) _
    have hg : w.Graftable (.input p s) c :=
      { offers := by simp [offers, hb, hk]
        child := has_iff.mpr ⟨d, hd⟩
        ne := hcontent ▸ hne
        above := hu
        fits := fits_input hb hk hd (by simp_all)
        previous := fun x hx => by
          obtain ⟨d', hd', ht⟩ := hx.takes hb hk
          exact ⟨d', hd', by simpa only [Socket.takes, hkind] using ht⟩
        follows := by simp }
    refine hcontent ▸ h.ensures_graft hg (fun hbare hok => ?_) (hok hg)
    refine Workspace.ensures_attachInput (has_congr (hbare c) ▸ hg.child) (fun _ => hok) fun hno =>
      absurd ((offers_congr (hbare p)).trans hg.offers) hno

/-- What `connectNext` does once its checks are passed. It is not refused where they are. -/
theorem Sound.ensures_connectNext_graft (h : Sound rooted typed w)
    (hsame : w.occupant? (.next p) = some c → ok () w)
    (hrefused : ¬ w.Graftable (.next p) c → ∀ err, refused err w)
    (hok : w.Graftable (.next p) c → ok () (w.spliced (.next p) c)) :
    (connectNext p c).Ensures w ok refused := by
  unfold connectNext
  rw [ensures_bind, ensures_require]
  cases hb : w.find? p with
  | none => exact hrefused (fun hg => by simpa [offers, has, hb] using hg.offers) _
  | some b =>
    have hcontent : w.occupant? (.next p) = b.next := by simp [occupant?, hb]
    dsimp only
    split
    · rename_i hnext
      exact hrefused (fun hg => by simp [hg.next_of_find? hb] at hnext) _
    rename_i hnext
    rw [ensures_bind, ensures_require]
    cases hd : w.find? c with
    | none => exact hrefused (fun hg => by simpa [has, hd] using hg.child) _
    | some d =>
      dsimp only
      split
      · rename_i hprev
        exact hrefused (fun hg => by simp [hg.previous_of_find? hd] at hprev) _
      rename_i hprev
      split
      case isFalse hsame' => exact hsame (hcontent.trans (by simpa using hsame'))
      rename_i hne
      rw [ensures_bind]
      refine ensures_refuseCycle (fun hu => ?_) fun hu => hrefused (fun hg => hg.above hu) _
      have hp : w.has p := has_iff.mpr ⟨b, hb⟩
      have hg : w.Graftable (.next p) c :=
        { offers := hp
          child := has_iff.mpr ⟨d, hd⟩
          ne := hcontent ▸ hne
          above := hu
          fits := fits_next hd (by simpa using hprev)
          previous := by
            rintro x ⟨d', hd', ht⟩
            exact ⟨d', hd', ht trivial⟩
          follows := fun q hq => by
            cases hq
            exact ⟨b.bare, bare?_of_find? hb, show b.connectors.next by simpa using hnext⟩ }
      refine hcontent ▸ h.ensures_graft hg (fun hbare hok => ?_) (hok hg)
      exact ensures_attachNext (has_congr (hbare p) ▸ hp) (has_congr (hbare c) ▸ hg.child) hok

theorem Sound.ensures_connectStatement_spliced (h : Sound rooted typed w)
    (hsame : w.occupant? (.input p s) = some c → ok () w) (hrefused : ∀ err, refused err w)
    (hok : w.Graftable (.input p s) c → ok () (w.spliced (.input p s) c)) :
    (connectStatement p s c).Ensures w ok refused :=
  h.ensures_connectStatement_graft hsame (fun _ => hrefused) hok

theorem Sound.ensures_connectNext_spliced (h : Sound rooted typed w)
    (hsame : w.occupant? (.next p) = some c → ok () w) (hrefused : ∀ err, refused err w)
    (hok : w.Graftable (.next p) c → ok () (w.spliced (.next p) c)) :
    (connectNext p c).Ensures w ok refused :=
  h.ensures_connectNext_graft hsame (fun _ => hrefused) hok

end connect

/-- Plugging in statements keeps a workspace sound, and a refusal leaves it as it was. -/
theorem Sound.ensures_connectStatement (h : Sound rooted typed w) (p : BlockId) (s : String)
    (c : BlockId) : (connectStatement p s c).Ensures w (fun _ w' => Sound rooted typed w')
      fun _ w' => w' = w :=
  h.ensures_connectStatement_spliced (fun _ => h) (fun _ => rfl) h.spliced

theorem keeps_connectStatement (p : BlockId) (s : String) (c : BlockId) :
    (connectStatement p s c).Keeps (Sound rooted typed) :=
  fun _ h => (h.ensures_connectStatement p s c).mono (fun _ _ h' => h') fun _ _ h' => h' ▸ h

/-- Following on keeps a workspace sound, and a refusal leaves it as it was. -/
theorem Sound.ensures_connectNext (h : Sound rooted typed w) (p c : BlockId) :
    (connectNext p c).Ensures w (fun _ w' => Sound rooted typed w') fun _ w' => w' = w :=
  h.ensures_connectNext_spliced (fun _ => h) (fun _ => rfl) h.spliced

theorem keeps_connectNext (p c : BlockId) : (connectNext p c).Keeps (Sound rooted typed) :=
  fun _ h => (h.ensures_connectNext p c).mono (fun _ _ h' => h') fun _ _ h' => h' ▸ h

end BlockProgram.Workspace
