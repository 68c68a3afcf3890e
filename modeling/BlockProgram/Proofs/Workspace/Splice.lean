import BlockProgram.Proofs.Workspace.Nesting
import BlockProgram.Proofs.Workspace.Relinked
import BlockProgram.Proofs.Workspace.Valid

/-! Moving a chain of statements into a place where there may be another one. The moved chain goes to its
end, and what is left of the other one comes after it if it can, or is put at the top. -/
namespace BlockProgram.Workspace

open Edit

def leads (w : Workspace) (x : BlockId) : Bool := (w.find? x).any (·.connectors.next)

/-- The chain in a place, up to a block that leaves it. -/
def remainder (w : Workspace) (place : Attachment) (c : BlockId) : List BlockId :=
  match w.occupant? place with
  | none => []
  | some old => (w.chain old).takeWhile (· ≠ c)

/-- The contents of places after `c` has come to a place, with what was there after its chain. -/
def grafted (w : Workspace) (place : Attachment) (c : BlockId) (q : Attachment) : Option BlockId :=
  if q = .next (w.lastInChain c) ∧ w.leads (w.lastInChain c) then w.occupant? place
  else w.supplied place c q

/-- The chain of `c` is in a place, and what was left of the chain there comes after it or is at the top. -/
structure Spliced (w : Workspace) (place : Attachment) (c : BlockId) (w' : Workspace) : Prop where
  relinked : w.Relinked (fun _ => False) (w.grafted place c) w'
  held : w'.occupant? place = some c
  joined : w.remainder place c = [] ∨ w.leads (w.lastInChain c) →
    w'.chain c = w.chain c ++ w.remainder place c
  parted : w.remainder place c ≠ [] → ¬ w.leads (w.lastInChain c) → w'.chain c = w.chain c ∧
    ∃ old, w.occupant? place = some old ∧ w'.parent? old = none ∧ w'.chain old = w.remainder place c
  /-- The place that the chain came from is empty. -/
  left : ∀ q, w.parent? c = some q → w'.occupant? q = none
  sockets : ∀ x n, .input x n ≠ place → w.occupant? (.input x n) ≠ some c →
    w'.occupant? (.input x n) = w.occupant? (.input x n)
  /-- Only the blocks at either end of a link that is made or broken are changed. -/
  rest : ∀ x, x ≠ c → w.occupant? place ≠ some x → x ≠ place.block → x ≠ w.lastInChain c →
    (∀ q, w.parent? c = some q → x ≠ q.block) → w'.find? x = w.find? x

variable {w w' : Workspace} {p c x y last old : BlockId} {s : String} {place q : Attachment}
  {l l' : List BlockId} {rooted typed : Prop} {shapes : ShapeRegistry}

namespace Row

theorem keep (hr : w.Row x l) (hk : ∀ a ∈ l, w'.occupant? (.next a) = w.occupant? (.next a)) :
    w'.Row x l := by
  induction hr with
  | last hn => exact .last ((hk _ (by simp)).trans hn)
  | cons hn _ ih =>
    exact .cons ((hk _ (by simp)).trans hn) (ih fun a ha => hk a (List.mem_cons_of_mem _ ha))

/-- Another chain is hung after the last block. -/
theorem append (hr : w.Row x l) (hl : last ∈ l) (hfree : w.occupant? (.next last) = none)
    (hk : ∀ a ∈ l, a ≠ last → w'.occupant? (.next a) = w.occupant? (.next a))
    (hn : w'.occupant? (.next last) = some y) (hr' : w'.Row y l') : w'.Row x (l ++ l') := by
  induction hr with
  | last _ =>
    obtain rfl := List.mem_singleton.mp hl
    exact .cons hn hr'
  | @cons x z l hnext _ ih =>
    have hx : x ≠ last := fun he => by simp [he, hfree] at hnext
    refine .cons ((hk x (by simp) hx).trans hnext) (ih ?_ fun a ha => hk a (List.mem_cons_of_mem _ ha))
    exact (List.mem_cons.mp hl).resolve_left hx.symm

private theorem takeWhile_ne_head (hr : w.Row c l) : l.takeWhile (· ≠ c) = [] := by
  cases hr <;> simp

/-- The chain is cut before a block of it. -/
theorem cut (hr : w.Row x l) (hx : x ≠ c) (hk : ∀ a ∈ l.takeWhile (· ≠ c),
      w'.occupant? (.next a) = if w.occupant? (.next a) = some c then none else w.occupant? (.next a)) :
    w'.Row x (l.takeWhile (· ≠ c)) := by
  induction hr with
  | last hn =>
    rw [List.takeWhile_cons_of_pos (by simpa using hx)] at hk ⊢
    exact .last (by simp [hk, hn])
  | @cons x y l hn hr ih =>
    rw [List.takeWhile_cons_of_pos (by simpa using hx)] at hk ⊢
    have hhead := hk x (by simp)
    by_cases hy : y = c
    · subst hy
      rw [hr.takeWhile_ne_head]
      exact .last (by rw [hhead, if_pos hn])
    · refine .cons (hhead.trans ?_) (ih hy fun a ha => hk a (List.mem_cons_of_mem _ ha))
      rw [if_neg (by simpa [hn] using hy), hn]

/-- Before a block of the chain there is none that is beneath it, if the head is not. -/
theorem not_under_of_mem_takeWhile (hr : w.Row x l) (h : w.Linked) (hx : ¬ w.Under c x) :
    ∀ a ∈ l.takeWhile (· ≠ c), ¬ w.Under c a := by
  induction hr with
  | last _ =>
    intro a ha
    exact List.mem_singleton.mp ((List.takeWhile_subset _ ha)) ▸ hx
  | @cons x y l hn hr ih =>
    have hne : x ≠ c := fun he => hx (he ▸ .self)
    rw [List.takeWhile_cons_of_pos (by simpa using hne)]
    refine List.forall_mem_cons.mpr ⟨hx, ?_⟩
    by_cases hy : y = c
    · subst hy
      rw [hr.takeWhile_ne_head]
      simp
    · refine ih fun hu => ?_
      cases hu with
      | self => exact hy rfl
      | step hp hu => exact hx (by cases ((h.link _ _).mp hn).symm.trans hp; exact hu)

end Row

theorem leads_eq : w.leads x = (w.bare? x).any (·.connectors.next) := by
  unfold leads bare?
  cases w.find? x <;> rfl

/-- The contents of places beneath `c` do not change. -/
theorem Graftable.supplied_eq (hg : w.Graftable place c) (hl : w.Linked) (ha : w.Acyclic)
    (hq : w.Under c q.block) : w.supplied place c q = w.occupant? q := by
  have hne : q ≠ place := fun he => hg.above (he ▸ hq)
  have hno : w.occupant? q ≠ some c := fun ho => ha.not_under ((hl.link _ _).mp ho) hq
  rw [supplied, if_neg hne, if_neg hno]

private theorem Sound.occupant?_regrafted (h : Sound rooted typed w) (hg : w.Graftable place c) :
    (w.regrafted place c).occupant? q = w.supplied place c q := by
  refine Option.ext fun x => ?_
  have hx := h.linked.link q x
  have hplace := h.linked.link place x
  rw [(h.regrafted hg).linked.link, hg.parent?_regrafted]
  unfold supplied
  grind

private theorem Sound.relinked_regrafted (h : Sound rooted typed w) (hg : w.Graftable place c) :
    w.Relinked (fun _ => False) (w.supplied place c) (w.regrafted place c) :=
  (h.regrafted hg).linked.relinked shapes_regrafted ids_regrafted (fun _ => bare?_regrafted)
    fun _ _ => h.occupant?_regrafted hg

private theorem Sound.lastInChain_regrafted (h : Sound True typed w) (hg : w.Graftable place c) :
    (w.regrafted place c).lastInChain c = w.lastInChain c := by
  have hrow := h.linked.row_chain_of_acyclic (h.acyclic trivial) hg.child
  have h' := h.regrafted hg
  have hrow' := h'.linked.row_chain_of_acyclic (h'.acyclic trivial) (x := c) (by simp [hg.child])
  have hchain : (w.regrafted place c).chain c = w.chain c := by
    refine hrow'.unique (hrow.keep fun a ha => ?_)
    rw [h.occupant?_regrafted hg,
      hg.supplied_eq (q := .next a) h.linked (h.acyclic trivial) (hrow.under h.linked a ha)]
  rw [lastInChain, hchain, lastInChain]

/-- Splicing a chain in relinks nothing but the chain, its old place, and what was in the new one. -/
theorem Sound.relinked_spliced (h : Sound True True w) (hg : w.Graftable place c) :
    w.Relinked (fun _ => False) (w.grafted place c) (w.spliced place c) := by
  have hr := h.relinked_regrafted hg
  obtain ⟨hlast, -, hfree⟩ := h.last_regrafted hg
  rw [h.lastInChain_regrafted hg] at hlast hfree
  unfold Workspace.spliced
  simp only [h.lastInChain_regrafted hg]
  cases hold : w.occupant? place with
  | none =>
    refine hr.congr (fun _ _ => Iff.rfl) fun q _ => ?_
    rw [h.occupant?_regrafted hg] at hfree
    grind [grafted]
  | some old =>
    have hparent := (h.linked.link _ _).mp hold
    have hne : old ≠ c := fun he => hg.ne (he ▸ hold)
    have htop : (w.regrafted place c).parent? old = none := by
      rw [hg.parent?_regrafted, if_neg hne, if_pos hold]
    obtain ⟨d, hd, hprev⟩ := hg.previous old (h.fits _ _ hparent)
    have hjoins : (w.regrafted place c).joins (w.lastInChain c) old = w.leads (w.lastInChain c) := by
      rw [joins, bare?_regrafted, bare?_regrafted, hd, ← leads_eq]
      simp [hprev]
    dsimp only
    rw [hjoins]
    split
    · rename_i hleads
      have hoffers : (w.regrafted place c).offers (.next (w.lastInChain c)) := hlast
      refine (hr.attached hoffers hfree (by simpa using has_of_parent? hparent) htop).congr
        (fun _ _ => Iff.rfl) fun q _ => ?_
      grind [grafted]
    · rename_i hleads
      exact hr.congr (fun _ _ => Iff.rfl) fun q _ => by simp [grafted, hleads]

section chains

variable (hr : w.Relinked (fun _ => False) (w.grafted place c) w') (h : Sound True True w)
  (hg : w.Graftable place c)
include hr h hg

/-- The moved chain as it was is not followed by another one. -/
theorem Relinked.row_moved (hno : w.occupant? place = none ∨ ¬ w.leads (w.lastInChain c)) :
    w'.Row c (w.chain c) := by
  have hrow := h.linked.row_chain_of_acyclic (h.acyclic trivial) hg.child
  obtain ⟨-, -, hfree⟩ := h.linked.lastInChain hg.child fun _ hp => (h.acyclic trivial).not_under hp
  refine hrow.keep fun a ha => ?_
  have hu := hrow.under h.linked a ha
  have hsupplied := hg.supplied_eq (q := .next a) h.linked (h.acyclic trivial) hu
  rw [hr.content (.next a) ((hr.has a).mpr ⟨hu.has_below hg.child, id⟩)]
  grind [grafted]

/-- What is left of the chain that was in the place. -/
theorem Relinked.row_remainder (hold : w.occupant? place = some old) :
    w'.Row old (w.remainder place c) := by
  have ha := h.acyclic trivial
  have hparent := (h.linked.link _ _).mp hold
  have hrow := h.linked.row_chain_of_acyclic ha (has_of_parent? hparent)
  have hne : old ≠ c := fun he => hg.ne (he ▸ hold)
  obtain ⟨-, hlast, -⟩ := h.linked.lastInChain hg.child fun _ hp => ha.not_under hp
  simp only [remainder, hold]
  refine hrow.cut hne fun a ha' => ?_
  have hu := hrow.under h.linked a (List.takeWhile_subset _ ha')
  have hno := hrow.not_under_of_mem_takeWhile h.linked
    (h.linked.not_under_occupant hg.ne hg.above old hold) a ha'
  rw [hr.content (.next a) ((hr.has a).mpr ⟨hu.has_below (has_of_parent? hparent), id⟩), grafted,
    if_neg, supplied, if_neg]
  · exact fun he => ha.not_under hparent (he ▸ hu)
  · rintro ⟨he, -⟩
    exact hno (Attachment.next.inj he ▸ hlast)

private theorem Relinked.row_joined (hold : w.occupant? place = some old)
    (hleads : w.leads (w.lastInChain c)) : w'.Row c (w.chain c ++ w.remainder place c) := by
  have ha := h.acyclic trivial
  have hrow := h.linked.row_chain_of_acyclic ha hg.child
  obtain ⟨last, hmem, he, hfree⟩ := hrow.getLast?
  have hlast : w.lastInChain c = last := by
    simp [lastInChain, List.getLastD_eq_getLast?, he]
  have hcontent (a : BlockId) (ha' : a ∈ w.chain c) :
      w'.occupant? (.next a) = w.grafted place c (.next a) :=
    hr.content (.next a) ((hr.has a).mpr ⟨(hrow.under h.linked a ha').has_below hg.child, id⟩)
  refine hrow.append hmem hfree (fun a ha' hne => ?_) ?_ (hr.row_remainder h hg hold)
  · rw [hcontent a ha', grafted, if_neg (by simp [hlast, hne]),
      hg.supplied_eq (q := .next a) h.linked ha (hrow.under h.linked a ha')]
  · rw [hcontent last hmem, grafted, hlast, if_pos ⟨rfl, hlast ▸ hleads⟩, hold]

omit h in
/-- Only after the moved chain may a place hold anything else than if the chain were one block. -/
theorem Relinked.occupant?_spliced (hq : q ≠ .next (w.lastInChain c)) :
    w'.occupant? q = w.supplied place c q := by
  by_cases hx : w.has q.block
  · rw [hr.content q ((hr.has _).mpr ⟨hx, id⟩), grafted, if_neg fun he => hq he.1]
  · have hne : q ≠ place := fun he => hx (he ▸ has_of_offers hg.offers)
    rw [occupant?_of_not_has fun hx' => hx ((hr.has _).mp hx').1, supplied, if_neg hne,
      occupant?_of_not_has hx]
    rfl

/-- A block that neither is moved nor held by the place stays where it was. -/
theorem Relinked.parent?_spliced (hx : x ≠ c) (hold : w.occupant? place ≠ some x) :
    w'.parent? x = w.parent? x := by
  obtain ⟨hhas, hlast, hfree⟩ := h.linked.lastInChain hg.child fun _ hp => (h.acyclic trivial).not_under hp
  refine Option.ext fun q => ?_
  rw [← hr.linked.link, ← h.linked.link]
  by_cases hq : q = .next (w.lastInChain c)
  · subst hq
    have hsupplied := hg.supplied_eq (q := .next (w.lastInChain c)) h.linked (h.acyclic trivial) hlast
    rw [hr.content (.next (w.lastInChain c)) ((hr.has _).mpr ⟨hhas, id⟩)]
    grind [grafted]
  · rw [hr.occupant?_spliced hg hq]
    grind [supplied]

/-- The contents of places say the rest. -/
theorem Relinked.spliced_of_content (h' : Sound True True w') : w.Spliced place c w' := by
  have hl := h.linked
  have ha := h.acyclic trivial
  have hrow {x : BlockId} (hx : w.has x) : w'.Row x (w'.chain x) :=
    h'.linked.row_chain_of_acyclic (h'.acyclic trivial) ((hr.has x).mpr ⟨hx, id⟩)
  obtain ⟨-, hlast, -⟩ := hl.lastInChain hg.child fun _ hp => ha.not_under hp
  have hcontent (q : Attachment) (hq : q ≠ .next (w.lastInChain c)) := hr.occupant?_spliced hg hq
  have hplace : place ≠ .next (w.lastInChain c) := fun he => hg.above (he ▸ hlast)
  refine ⟨hr, ?_, fun hjoin => ?_, fun hrest hleads => ?_, fun q hq => ?_, fun x n hne hno => ?_,
    fun x hxc hold hblock hend hup => ?_⟩
  · rw [hcontent place hplace, supplied, if_pos rfl]
  · cases hold : w.occupant? place with
    | none =>
      have hnil : w.remainder place c = [] := by simp [remainder, hold]
      rw [hnil, List.append_nil]
      exact (hrow hg.child).unique (hr.row_moved h hg (.inl hold))
    | some old =>
      refine (hrow hg.child).unique (hr.row_joined h hg hold (hjoin.resolve_left ?_))
      exact List.ne_nil_of_mem (hr.row_remainder h hg hold).head_mem
  · obtain ⟨old, hold⟩ : ∃ old, w.occupant? place = some old := by
      cases hold : w.occupant? place with
      | none => simp [remainder, hold] at hrest
      | some old => exact ⟨old, rfl⟩
    have hparent := (hl.link _ _).mp hold
    refine ⟨(hrow hg.child).unique (hr.row_moved h hg (.inr hleads)), old, hold,
      hr.parent?_eq_none fun q hq => ?_,
      (hrow (has_of_parent? hparent)).unique (hr.row_remainder h hg hold)⟩
    have hq' : w.occupant? q = some old ↔ q = place := hl.occupant?_iff hparent
    have hne := hg.ne
    grind [grafted, supplied]
  · have hne : q ≠ place := fun he => hg.ne (he ▸ (hl.link _ _).mpr hq)
    have hend : q ≠ .next (w.lastInChain c) := fun he => ha.not_under hq (he ▸ hlast)
    rw [hcontent q hend, supplied, if_neg hne, if_pos ((hl.link _ _).mpr hq)]
  · rw [hcontent _ (by simp), supplied, if_neg hne, if_neg hno]
  · refine hr.linked.find?_congr hr.bare?_eq (fun q he => ?_) (hr.parent?_spliced h hg hxc hold)
    have hne : q ≠ place := fun hq => hblock (by rw [← he, hq])
    have hno : w.occupant? q ≠ some c := fun ho => hup q ((hl.link _ _).mp ho) he.symm
    rw [hcontent q fun hq => hend (by rw [← he, hq]; rfl), supplied, if_neg hne, if_neg hno]

end chains

/-- Connecting statements splices chains, both after a block and in a statement socket. -/
theorem connect_spliced (hd : shapes.Declared) (hw : Edited shapes w) :
    (∀ p c w', (connectNext p c).perform w = (.ok (), w') → w.occupant? (.next p) ≠ some c →
      w.Spliced (.next p) c w' ∧ w'.chain p = p :: w'.chain c) ∧
    ∀ p s c w', (connectStatement p s c).perform w = (.ok (), w') →
      w.occupant? (.input p s) ≠ some c → w.Spliced (.input p s) c w' := by
  have h : Sound True True w := hw.sound hd.distinct fun _ => hd.regular
  have hspliced {place : Attachment} {c : BlockId} (hg : w.Graftable place c) :
      w.Spliced place c (w.spliced place c) :=
    (h.relinked_spliced hg).spliced_of_content h hg (h.spliced hg)
  refine ⟨fun p c w' hok hne => ?_, fun p s c w' hok hne => ?_⟩
  · have hensures : (connectNext p c).Ensures w
        (fun _ w' => w.Spliced (.next p) c w' ∧ w'.chain p = p :: w'.chain c) fun _ _ => True := by
      refine h.ensures_connectNext_spliced (fun he => absurd he hne) (fun _ => trivial) fun hg => ?_
      have h' := h.spliced hg
      have hs := hspliced hg
      have hhas {x : BlockId} (hx : w.has x) : (w.spliced (.next p) c).has x :=
        (hs.relinked.has x).mpr ⟨hx, id⟩
      have hrow {x : BlockId} (hx : w.has x) :=
        h'.linked.row_chain_of_acyclic (h'.acyclic trivial) (hhas hx)
      exact ⟨hs, (hrow hg.offers).unique (.cons hs.held (hrow hg.child))⟩
    exact hensures.of_ok hok
  · have hensures : (connectStatement p s c).Ensures w (fun _ w' => w.Spliced (.input p s) c w')
        fun _ _ => True :=
      h.ensures_connectStatement_spliced (fun he => absurd he hne) (fun _ => trivial) hspliced
    exact hensures.of_ok hok

/-- The last two of four statements are moved up to the first one; the second one comes after them. -/
theorem connect_spliced_within_chain :
    let w := [Action.add ⟨"one"⟩ "text_print" false, .add ⟨"two"⟩ "text_print" false,
      .add ⟨"three"⟩ "text_print" false, .add ⟨"four"⟩ "text_print" false,
      .connectNext ⟨"one"⟩ ⟨"two"⟩, .connectNext ⟨"two"⟩ ⟨"three"⟩,
      .connectNext ⟨"three"⟩ ⟨"four"⟩].foldl Action.apply (.empty Python.standard.shapes)
    let w' := ((connectNext ⟨"one"⟩ ⟨"three"⟩).perform w).2
    Python.standard.shapes.Declared ∧ Edited Python.standard.shapes w ∧
    (connectNext ⟨"one"⟩ ⟨"three"⟩).perform w = (.ok (), w') ∧
    (w.Spliced (.next ⟨"one"⟩) ⟨"three"⟩ w' ∧ w'.chain ⟨"one"⟩ = ⟨"one"⟩ :: w'.chain ⟨"three"⟩) ∧
    w'.chain ⟨"three"⟩ = [⟨"three"⟩, ⟨"four"⟩, ⟨"two"⟩] := by
  intro w w'
  have hw : Edited Python.standard.shapes w := Edited.empty.run _
  have hok : (connectNext ⟨"one"⟩ ⟨"three"⟩).perform w = (.ok (), w') := by decide +kernel
  have hne : w.occupant? (.next ⟨"one"⟩) ≠ some ⟨"three"⟩ := by decide +kernel
  exact ⟨Python.standard_declared, hw, hok,
    (connect_spliced Python.standard_declared hw).1 _ _ _ hok hne, by decide +kernel⟩

end BlockProgram.Workspace
