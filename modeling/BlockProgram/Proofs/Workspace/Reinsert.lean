import BlockProgram.Proofs.Document.Connection
import BlockProgram.Proofs.Workspace.Removal
import BlockProgram.Proofs.Workspace.Splice

/-! Unplugging a block and putting it back where it was. The chain that has moved up into its place is pushed
behind it again, so the workspace is what it was. -/
namespace BlockProgram.Workspace

open Edit

/-- The edit that puts `b` into a place is told by the kind of the place. -/
inductive Plugs (w : Workspace) (b : BlockId) : Attachment → Edit EditError Unit → Prop where
  | next {p : BlockId} : Plugs w b (.next p) (connectNext p b)
  | statement {p : BlockId} {s : String} {a : Block} {k : Socket} (ha : w.find? p = some a)
      (hk : a.socket? s = some k) (hkind : k.kind = .statement) :
      Plugs w b (.input p s) (connectStatement p s b)
  | value {p : BlockId} {s : String} {a : Block} {k : Socket} (ha : w.find? p = some a)
      (hk : a.socket? s = some k) (hkind : k.kind = .value) :
      Plugs w b (.input p s) (connectValue p s b)

variable {w : Workspace} {b p : BlockId} {s : String} {place : Attachment} {a : Block} {k : Socket}
  {e : Edit EditError Unit} {shapes : ShapeRegistry}

/-- A block that is plugged in stands in a place of one kind. -/
theorem Sound.exists_plugs (h : Sound True True w) (hp : w.parent? b = some place) :
    ∃ e, w.Plugs b place e := by
  cases place with
  | next p => exact ⟨_, .next⟩
  | input p s =>
    obtain ⟨_, _, _, hbare, hk, -, hplain, -⟩ := h.fits _ _ hp
    obtain ⟨a, ha, rfl⟩ := Option.map_eq_some_iff.mp hbare
    rw [Block.socket?_bare, Option.map_eq_some_iff] at hk
    obtain ⟨k, hk, rfl⟩ := hk
    cases hkind : k.kind with
    | value => exact ⟨_, .value ha hk hkind⟩
    | statement => exact ⟨_, .statement ha hk hkind⟩
    | dummy => exact absurd hkind hplain

section healed

variable (h : Sound True True w) (hp : w.parent? b = some place)
include h hp

/-- The block that is out of its place fits it still, and what is there now can follow the block. -/
theorem Sound.graftable_healed
    (hprevious : ∀ x, w.Fits True place x → ∃ d, w.bare? x = some d ∧ d.connectors.previous) :
    (w.healed b).Graftable place b where
  offers := (offers_congr bare?_healed).trans (offers_of_occupant? ((h.linked.link _ _).mpr hp))
  child := by
    rw [has_congr bare?_healed]
    exact has_of_parent? hp
  ne ho := by
    rw [(h.healed b).sound.linked.link, (h.unthreaded b).parent?_self] at ho
    cases ho
  above hu := (h.acyclic trivial).not_under hp ((h.healed b).under hu)
  fits := (h.fits _ _ hp).congr bare?_healed bare?_healed
  previous x hx := by
    rw [bare?_healed]
    exact hprevious x (hx.congr bare?_healed.symm bare?_healed.symm)
  follows q hq := by
    rw [bare?_healed]
    exact h.follows q b (hq ▸ hp)

private theorem Sound.spliced_healed
    (hprevious : ∀ x, w.Fits True place x → ∃ d, w.bare? x = some d ∧ d.connectors.previous) :
    (w.healed b).spliced place b = w := by
  have h' := (h.healed b).sound
  have hg := h.graftable_healed hp hprevious
  have hrow : (w.healed b).chain b = [b] := by
    refine (h'.linked.row_chain_of_acyclic (h'.acyclic trivial) hg.child).unique (.last ?_)
    rw [h.occupant?_healed, closedUp, if_pos rfl]
  have hlast : (w.healed b).lastInChain b = b := by simp [lastInChain, hrow]
  refine (h'.relinked_spliced hg).unique (h.linked.relinked shapes_healed.symm ids_healed.symm
    (fun _ => bare?_healed.symm) fun q _ => ?_)
  have hheld (q : Attachment) : w.occupant? q = some b ↔ q = place := h.linked.occupant?_iff hp
  have hne : place ≠ .next b := fun he => (h.acyclic trivial).not_under hp (he ▸ .self)
  have hnext : ¬ (w.healed b).leads b → w.occupant? (.next b) = none := by
    intro hno
    refine Option.eq_none_iff_forall_ne_some.mpr fun q hq => hno ?_
    obtain ⟨d, hd, hd'⟩ := h.follows _ _ ((h.linked.link _ _).mp hq)
    rw [leads_eq, bare?_healed, hd]
    exact hd'
  unfold grafted supplied
  rw [hlast]
  simp only [h.occupant?_healed]
  unfold closedUp
  grind

/-- An expression is not followed by anything, so nothing has come to its place. -/
theorem Sound.attached_healed (hnext : w.occupant? (.next b) = none) :
    (w.healed b).attached place b = w := by
  have hhas := has_of_parent? hp
  have hoffers := offers_of_occupant? ((h.linked.link _ _).mpr hp)
  have hheld (q : Attachment) : w.occupant? q = some b ↔ q = place := h.linked.occupant?_iff hp
  have htop := (h.unthreaded b).parent?_self
  refine ((h.relinked_healed b).attached ((offers_congr bare?_healed).trans hoffers) ?_ ?_ htop).unique
    (((Relinked.refl h.linked).congr (fun _ _ => Iff.rfl) fun q _ => ?_))
  · rw [h.occupant?_healed, closedUp]
    grind
  · rwa [has_congr bare?_healed]
  · unfold closedUp
    grind

end healed

/-- The sockets of a block are of the same kinds when links have changed. -/
theorem find?_of_bare? (w' : Workspace) (hbare : w'.bare? p = w.bare? p)
    (ha : w.find? p = some a) (hk : a.socket? s = some k) :
    ∃ a' k', w'.find? p = some a' ∧ a'.socket? s = some k' ∧ k'.emptied = k.emptied := by
  rw [bare?_of_find? ha] at hbare
  obtain ⟨a', ha', he⟩ := Option.map_eq_some_iff.mp hbare
  have hsocket : a'.bare.socket? s = some k.emptied := by simp [he, Block.socket?_bare, hk]
  rw [Block.socket?_bare] at hsocket
  obtain ⟨k', hk', he'⟩ := Option.map_eq_some_iff.mp hsocket
  exact ⟨a', k', ha', hk', he'⟩

private theorem Sound.ensures_plugs (h : Sound True True w) (hp : w.parent? b = some place)
    (he : w.Plugs b place e) : e.Ensures (w.healed b) (fun _ w' => w' = w) fun _ _ => False := by
  have h' := (h.healed b).sound
  cases he with
  | @next p =>
    have hprevious (x : BlockId) (hx : w.Fits True (.next p) x) :
        ∃ d, w.bare? x = some d ∧ d.connectors.previous := by
      obtain ⟨d, hd, ht⟩ := hx
      exact ⟨d, hd, ht trivial⟩
    have hg := h.graftable_healed hp hprevious
    exact h'.ensures_connectNext_graft (fun ho => absurd ho hg.ne) (fun hno => absurd hg hno) fun _ =>
      h.spliced_healed hp hprevious
  | @statement p s a k ha hk hkind =>
    have hprevious (x : BlockId) (hx : w.Fits True (.input p s) x) :
        ∃ d, w.bare? x = some d ∧ d.connectors.previous := by
      obtain ⟨d, hd, ht⟩ := hx.takes ha hk
      exact ⟨d, hd, by simpa only [Socket.takes, hkind] using ht⟩
    have hg := h.graftable_healed hp hprevious
    refine h'.ensures_connectStatement_graft (fun ho => absurd ho hg.ne) (fun hno => ?_) fun _ =>
      h.spliced_healed hp hprevious
    obtain ⟨a', k', ha', hk', he⟩ := find?_of_bare? (w.healed b) bare?_healed ha hk
    have hkind' : k'.kind = k.kind := show k'.emptied.kind = k.emptied.kind by rw [he]
    exact absurd (hkind'.trans hkind) (hno hg a' k' ha' hk')
  | @value p s a k ha hk hkind =>
    obtain ⟨a', k', ha', hk', he⟩ := find?_of_bare? (w.healed b) bare?_healed ha hk
    have hkind' : k'.kind = k.kind := show k'.emptied.kind = k.emptied.kind by rw [he]
    obtain ⟨d, hd, ht⟩ := (h.fits _ _ hp).takes ha hk
    obtain ⟨d, hfind, rfl⟩ := Option.map_eq_some_iff.mp hd
    have hout : d.connectors.output := by
      rw [Socket.takes, hkind] at ht
      exact (Bool.and_eq_true_iff.mp ht).1
    have hnext := h.occupant?_next_of_output trivial hd hout
    have hself := (h.unthreaded b).self
    rw [hfind] at hself
    have hvacant : (w.healed b).occupant? (.input p s) = none := by
      rw [h.occupant?_healed, closedUp, if_neg (by simp), if_pos ((h.linked.link _ _).mpr hp), hnext]
    refine ensures_connectValue_free h'.linked ha' hk' hself rfl ?_ (fun _ _ _ =>
      h.attached_healed hp hnext) fun hno => ?_
    · simpa [occupant?, ha', Block.target?, hk'] using hvacant
    · have htakes : k'.takes d.connectors := by
        rw [← Socket.takes_emptied, he, Socket.takes_emptied]
        exact ht
      exact absurd ((h.healed b).under (hno (hkind'.trans hkind) htakes))
        ((h.acyclic trivial).not_under hp)

/-- A block that is plugged in somewhere can be unplugged and put back there, and nothing has changed then. -/
theorem unplugged_and_plugged (hd : shapes.Declared) (hw : Edited shapes w)
    (hp : w.parent? b = some place) : ∃ w', (unplug b true).perform w = (.ok (), w') ∧
      (∃ e, w.Plugs b place e) ∧ ∀ e, w.Plugs b place e → e.perform w' = (.ok (), w) := by
  have h : Sound True True w := hw.sound hd.distinct fun _ => hd.regular
  have hunplug : (unplug b true).Ensures w (fun _ w' => w' = w.healed b) fun _ _ => False := by
    refine h.linked.ensures_unplug (fun _ => rfl) fun hnone => ?_
    simp [parent?, hnone] at hp
  obtain ⟨⟨⟩, w', hw', rfl⟩ := hunplug.exists_ok
  refine ⟨_, hw', h.exists_plugs hp, fun e he => ?_⟩
  obtain ⟨⟨⟩, w', hback, rfl⟩ := (h.ensures_plugs hp he).exists_ok
  exact hback

/-- The first of two statements in a loop. The last one stands in the loop in between. -/
theorem unplugged_and_plugged_in_loop :
    let w := [Action.add ⟨"loop"⟩ "controls_repeat_ext" false, .add ⟨"first"⟩ "text_print" false,
      .add ⟨"last"⟩ "text_print" false, .connectStatement ⟨"loop"⟩ "DO" ⟨"first"⟩,
      .connectNext ⟨"first"⟩ ⟨"last"⟩].foldl Action.apply (.empty Python.standard.shapes)
    let w' := ((unplug ⟨"first"⟩ true).perform w).2
    Python.standard.shapes.Declared ∧ Edited Python.standard.shapes w ∧
    w.parent? ⟨"first"⟩ = some (.input ⟨"loop"⟩ "DO") ∧
    (∃ w', (unplug ⟨"first"⟩ true).perform w = (.ok (), w') ∧
      (∃ e, w.Plugs ⟨"first"⟩ (.input ⟨"loop"⟩ "DO") e) ∧
      ∀ e, w.Plugs ⟨"first"⟩ (.input ⟨"loop"⟩ "DO") e → e.perform w' = (.ok (), w)) ∧
    w'.occupant? (.input ⟨"loop"⟩ "DO") = some ⟨"last"⟩ ∧
    (connectStatement ⟨"loop"⟩ "DO" ⟨"first"⟩).perform w' = (.ok (), w) := by
  intro w w'
  have hw : Edited Python.standard.shapes w := Edited.empty.run _
  have hp : w.parent? ⟨"first"⟩ = some (.input ⟨"loop"⟩ "DO") := by decide +kernel
  exact ⟨Python.standard_declared, hw, hp, unplugged_and_plugged Python.standard_declared hw hp,
    by decide +kernel, by decide +kernel⟩

end BlockProgram.Workspace
