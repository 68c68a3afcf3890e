import BlockProgram.Proofs.Workspace.Compose

/-! What becomes of a forest when one of its blocks is replanted: it is never refused half-way, every link
but those of the units stays as it is, and the only blocks that go are stand-ins of units, with what is
beneath them. -/
namespace BlockProgram

def Block.unitTargets (b : Block) : List BlockId :=
  (b.sockets.filter (·.structural)).filterMap (·.target)

namespace Workspace

open Edit

variable {w w' : Workspace} {a c owner x : BlockId} {place place' : Attachment}

/-- Two blocks in places of one block are not beneath each other. -/
theorem Acyclic.siblings (h : w.Acyclic) (hc : w.parent? c = some place)
    (hx : w.parent? x = some place') (he : place.block = place'.block) (hu : w.Under c x) :
    c = x := by
  cases hu with
  | self => rfl
  | step hp hu =>
    cases Option.some.inj (hx.symm.trans hp)
    exact absurd (he ▸ hu) (h.not_under hc)

/-- Whether a block is beneath one of those that are dropped. -/
def Dropped (w : Workspace) (drop : BlockId → Bool) (done : List BlockId) (x : BlockId) : Prop :=
  ∃ c ∈ done, drop c ∧ w.Under c x

/-- `w'` is `w` with the blocks of `done` out of their places, and some of them dropped. -/
structure CutOff (w : Workspace) (drop : BlockId → Bool) (done : List BlockId) (w' : Workspace) :
    Prop where
  linked : w'.Linked
  shapes : w'.shapes = w.shapes
  ids : w'.ids.Sublist w.ids
  gone : ∀ x, w.Dropped drop done x → ¬ w'.has x
  bare : ∀ x, ¬ w.Dropped drop done x → w'.bare? x = w.bare? x
  free : ∀ x ∈ done, w'.parent? x = none
  kept : ∀ x, ¬ w.Dropped drop done x → x ∉ done → w'.parent? x = w.parent? x

namespace CutOff

variable {drop : BlockId → Bool} {done : List BlockId}

theorem nil (h : w.Linked) : CutOff w drop [] w :=
  ⟨h, rfl, .refl _, fun _ ⟨_, hc, _⟩ => by simp at hc, fun _ _ => rfl, by simp, fun _ _ _ => rfl⟩

theorem pruned (h : CutOff w drop done w') : Pruned w w' where
  shapes := h.shapes
  bare x b hb := h.bare x (fun hd => h.gone x hd (has_of_bare? hb)) ▸ hb
  parent x place hp := by
    have hx : ¬ w.Dropped drop done x := fun hd => h.gone x hd (has_of_parent? hp)
    have hd : x ∉ done := fun hm => by simp [h.free x hm] at hp
    exact h.kept x hx hd ▸ hp

private theorem dropped_concat : w.Dropped drop (done ++ [c]) x ↔
    w.Dropped drop done x ∨ drop c ∧ w.Under c x := by
  constructor
  · rintro ⟨d, hd, h⟩
    rcases List.mem_append.mp hd with hd | hd
    · exact .inl ⟨d, hd, h⟩
    · exact .inr (List.mem_singleton.mp hd ▸ h)
  · rintro (⟨d, hd, h⟩ | h)
    · exact ⟨d, List.mem_append_left _ hd, h⟩
    · exact ⟨c, by simp, h⟩

/-- A block that is not dropped holds what it held, without what is cut off. -/
theorem occupant?_iff (h : CutOff w drop done w') (hl : w.Linked)
    (hplace : ¬ w.Dropped drop done place.block) :
    w'.occupant? place = some c ↔ w.occupant? place = some c ∧ c ∉ done := by
  rw [h.linked.link, hl.link]
  constructor
  · intro hp
    have hc : c ∉ done := fun hm => by simp [h.free c hm] at hp
    exact ⟨h.pruned.parent _ _ hp, hc⟩
  · rintro ⟨hp, hc⟩
    rwa [h.kept c (fun ⟨e, he, hdrop, hu⟩ => ?_) hc]
    cases hu with
    | self => exact hc he
    | step hp' hu =>
      cases Option.some.inj (hp.symm.trans hp')
      exact hplace ⟨e, he, hdrop, hu⟩

theorem detached (h : CutOff w drop done w') (hc : drop c = false) :
    CutOff w drop (done ++ [c]) (w'.detached c) := by
  have hiff (x : BlockId) : w.Dropped drop (done ++ [c]) x ↔ w.Dropped drop done x := by
    simp [dropped_concat, hc]
  refine ⟨h.linked.detached c, shapes_detached.trans h.shapes, by simpa using h.ids,
    fun x hx => ?_, fun x hx => ?_, fun x hx => ?_, fun x hx hm => ?_⟩
  · rw [has_detached]
    exact h.gone x ((hiff x).mp hx)
  · rw [bare?_detached]
    exact h.bare x fun hd => hx ((hiff x).mpr hd)
  · rw [parent?_detached]
    split
    · rfl
    · rename_i hne
      exact h.free x (by simpa [hne] using hx)
  · obtain ⟨hm, hne⟩ : x ∉ done ∧ x ≠ c := by simpa using hm
    rw [parent?_detached, if_neg hne]
    exact h.kept x (fun hd => hx ((hiff x).mpr hd)) hm

/-- A block next to those that are cut off goes with all that was beneath it from the start. -/
theorem dropped (h : CutOff w drop done w') (ha : w.Acyclic) (hc : w.parent? c = some place)
    (hdone : ∀ d ∈ done, ∃ q, w.parent? d = some q ∧ q.block = place.block) (hnew : c ∉ done)
    (hdrop : drop c) : CutOff w drop (done ++ [c]) ((w'.detached c).withoutSubtree c) := by
  have hapart {y : BlockId} (hy : w.Under c y) : y ∉ done ∧ ¬ w.Dropped drop done y := by
    refine ⟨fun hm => ?_, fun ⟨d, hd, _, hu⟩ => ?_⟩
    · obtain ⟨q, hq, he⟩ := hdone y hm
      exact hnew (ha.siblings hc hq he.symm hy ▸ hm)
    · obtain ⟨q, hq, he⟩ := hdone d hd
      rcases hy.linear hu with hcd | hdc
      · exact hnew (ha.siblings hc hq he.symm hcd ▸ hd)
      · exact hnew (ha.siblings hq hc he hdc ▸ hd)
  have hhas : (w'.detached c).has c := by
    rw [has_detached, has_congr (h.bare c (hapart .self).2)]
    exact has_of_parent? hc
  have hsub (y : BlockId) : y ∈ (w'.detached c).descendants c ↔ w.Under c y := by
    rw [(h.linked.detached c).mem_descendants hhas]
    refine ⟨(h.pruned.trans (pruned_detached w' c)).under, fun hu => hu.keep fun z hz _ hne => ?_⟩
    rw [parent?_detached, if_neg hne, h.kept z (hapart hz).2 (hapart hz).1]
  refine ⟨(h.linked.detached c).withoutSubtree hhas fun q hq => ?_, ?_, ?_, fun x hx => ?_,
    fun x hx => ?_, fun x hx => ?_, fun x hx hm => ?_⟩
  · simp [parent?_detached] at hq
  · simpa using h.shapes
  · rw [ids_withoutSubtree, ids_detached]
    exact List.filter_sublist.trans h.ids
  · rw [has_withoutSubtree, has_detached, hsub]
    rintro ⟨hx', hnot⟩
    exact (dropped_concat.mp hx).elim (fun hd => h.gone x hd hx') fun hd => hnot hd.2
  · have hx' := fun hd => hx (dropped_concat.mpr hd)
    rw [bare?_withoutSubtree, if_neg (fun hm => hx' (.inr ⟨hdrop, (hsub x).mp hm⟩)), bare?_detached]
    exact h.bare x fun hd => hx' (.inl hd)
  · rw [parent?_withoutSubtree, parent?_detached]
    rcases List.mem_append.mp hx with hx | hx
    · simp [h.free x hx]
    · simp [List.mem_singleton.mp hx]
  · have hx' := fun hd => hx (dropped_concat.mpr hd)
    obtain ⟨hm, hne⟩ : x ∉ done ∧ x ≠ c := by simpa using hm
    rw [parent?_withoutSubtree, if_neg (fun hm => hx' (.inr ⟨hdrop, (hsub x).mp hm⟩)),
      parent?_detached, if_neg hne]
    exact h.kept x (fun hd => hx' (.inl hd)) hm

end CutOff

section replant

variable {rooted typed : Prop} {b : Block} {shape : Shape} {m : Mutation}
  {plan : List (String × BlockId)}

/-- Whether a block that loses its socket is deleted: a stand-in that is not planned for another one. -/
def spare (w : Workspace) (plan : List (String × BlockId)) (c : BlockId) : Bool :=
  !(plan.any fun p => p.2 = c) && (w.bare? c).any (·.shadow)

theorem Linked.target_iff (h : w.Linked) (hb : w.find? owner = some b) {k : Socket}
    (hk : k ∈ b.sockets) : k.target = some c ↔ w.parent? c = some (.input owner k.name) := by
  rw [← h.link]
  simp [occupant?, hb, Block.target?, Block.socket?_of_mem (h.socket_names hb) hk]

theorem Linked.mem_targets (h : w.Linked) (hb : w.find? owner = some b) {P : Socket → Bool} :
    c ∈ (b.sockets.filter P).filterMap (·.target) ↔
      ∃ k ∈ b.sockets, P k ∧ w.parent? c = some (.input owner k.name) := by
  simp only [List.mem_filterMap, List.mem_filter]
  constructor
  · rintro ⟨k, ⟨hk, hs⟩, ht⟩
    exact ⟨k, hk, hs, (h.target_iff hb hk).mp ht⟩
  · rintro ⟨k, hk, hs, hp⟩
    exact ⟨k, ⟨hk, hs⟩, (h.target_iff hb hk).mpr hp⟩

/-- The targets of units are the blocks plugged into structural sockets. -/
theorem Linked.mem_unitTargets (h : w.Linked) (hb : w.find? owner = some b) :
    c ∈ b.unitTargets ↔
      ∃ k ∈ b.sockets, k.structural ∧ w.parent? c = some (.input owner k.name) := h.mem_targets hb

private theorem Linked.nodup_targets (h : w.Linked) (hb : w.find? owner = some b) (P : Socket → Bool) :
    ((b.sockets.filter P).filterMap (·.target)).Nodup := by
  have hnames : b.sockets.Pairwise fun k k' => k.name ≠ k'.name :=
    List.pairwise_map.mp (h.socket_names hb)
  refine List.pairwise_filterMap.mpr ((hnames.filter _).imp_of_mem ?_)
  rintro k k' hk hk' hne c hc _ hc' rfl
  have hp := (h.target_iff hb (List.mem_of_mem_filter hk)).mp hc
  have hp' := (h.target_iff hb (List.mem_of_mem_filter hk')).mp hc'
  exact hne (Attachment.input.inj (Option.some.inj (hp.symm.trans hp'))).2

/-- What some sockets of a block hold is cut off one after the other; nothing of it goes together with
something else. -/
theorem Linked.ensures_cutOff (h : w.Linked) (ha : w.Acyclic) (hb : w.find? owner = some b)
    {P : Socket → Bool} {l : List BlockId} (hl : (b.sockets.filter P).filterMap (·.target) = l)
    {drop : BlockId → Bool} {f : BlockId → Edit EditError Unit}
    (hf : ∀ c, drop c = false ∧ f c = detach c ∨
      drop c = (w.bare? c).any (·.shadow) ∧ f c = sever c) :
    (l.forM f).Ensures w (fun _ w' => CutOff w drop l w') fun _ _ => False := by
  have hn : l.Nodup := hl ▸ h.nodup_targets hb P
  have hplace (c : BlockId) (hc : c ∈ l) : ∃ q, w.parent? c = some q ∧ q.block = owner := by
    obtain ⟨k, -, -, hp⟩ := (h.mem_targets hb).mp (hl ▸ hc)
    exact ⟨_, hp, rfl⟩
  clear hl
  refine (ensures_forM (I := fun rest w' => ∃ done, done ++ rest = l ∧ CutOff w drop done w')
    ?_ l w ⟨[], rfl, .nil h⟩).mono ?_ fun _ _ h' => h'
  · rintro c rest w' ⟨done, rfl, hcut⟩
    obtain ⟨q, hq, hqb⟩ := hplace c (by simp)
    have hnew : c ∉ done := fun hm => (List.nodup_append.mp hn).2.2 c hm c (by simp) rfl
    have hdone : ∀ d ∈ done, ∃ q', w.parent? d = some q' ∧ q'.block = q.block := by
      intro d hd'
      obtain ⟨q', hq', he⟩ := hplace d (by simp [hd'])
      exact ⟨q', hq', he.trans hqb.symm⟩
    -- `c` is beside what has been cut off before, so it is still there as it was
    have hapart : ¬ w.Dropped drop done c := by
      rintro ⟨d, hd', _, hu⟩
      obtain ⟨q', hq', he⟩ := hdone d hd'
      exact hnew (ha.siblings hq' hq he hu ▸ hd')
    have hbare := hcut.bare c hapart
    have hhas : w'.has c := by
      rw [has_congr hbare]
      exact has_of_parent? hq
    obtain ⟨d, hfind⟩ := has_iff.mp hhas
    have happend : (done ++ [c]) ++ rest = done ++ c :: rest := by simp
    rcases hf c with ⟨hdrop, he⟩ | ⟨hdrop, he⟩
    · rw [he, hcut.linked.ensures_detach, hfind]
      exact ⟨_, happend, hcut.detached hdrop⟩
    · rw [he, hcut.linked.ensures_sever, hfind]
      refine ⟨_, happend, ?_⟩
      unfold Workspace.severed
      rw [hbare]
      split
      · rename_i hshadow
        exact hcut.dropped ha hq hdone hnew (hdrop.trans hshadow)
      · rename_i hshadow
        exact hcut.detached (hdrop.trans (by simpa using hshadow))
  · rintro _ w' ⟨done, hd, hcut⟩
    rwa [← hd, List.append_nil]

private theorem Linked.ensures_cutOffUnits (h : w.Linked) (ha : w.Acyclic)
    (hb : w.find? owner = some b) :
    (b.unitTargets.forM fun child =>
      if plan.any fun p => p.2 = child then detach child else sever child).Ensures w
      (fun _ w' => CutOff w (w.spare plan) b.unitTargets w') fun _ _ => False := by
  refine h.ensures_cutOff ha hb rfl fun c => ?_
  unfold spare
  cases plan.any fun p => p.2 = c <;> simp

private theorem Linked.ensures_detachAll (h : w.Linked) (hhas : ∀ p ∈ plan, w.has p.2) :
    (plan.forM fun p => detach p.2).Ensures w
      (fun _ w' => CutOff w (fun _ => false) (plan.map (·.2)) w') fun _ _ => False := by
  refine (ensures_forM (I := fun rest w' => ∃ done, done ++ rest = plan ∧
    CutOff w (fun _ => false) (done.map (·.2)) w') ?_ plan w ⟨[], rfl, .nil h⟩).mono ?_
    fun _ _ h' => h'
  · rintro p rest w' ⟨done, hd, hcut⟩
    have hp : w'.has p.2 := by
      rw [has_congr (hcut.bare p.2 (by rintro ⟨_, _, he, _⟩; cases he))]
      exact hhas p (hd ▸ by simp)
    obtain ⟨d, hfind⟩ := has_iff.mp hp
    rw [hcut.linked.ensures_detach, hfind]
    refine ⟨done ++ [p], by simpa using hd, ?_⟩
    rw [List.map_append]
    exact hcut.detached rfl
  · rintro _ w' ⟨done, hd, hcut⟩
    rwa [← hd, List.append_nil]

/-- Free blocks are plugged into empty sockets, one after the other. -/
structure Planted (owner : BlockId) (done : List (String × BlockId)) (w w' : Workspace) : Prop where
  linked : w'.Linked
  shapes : w'.shapes = w.shapes
  ids : w'.ids = w.ids
  bare : ∀ x, w'.bare? x = w.bare? x
  planted : ∀ p ∈ done, w'.parent? p.2 = some (.input owner p.1)
  kept : ∀ x, x ∉ done.map (·.2) → w'.parent? x = w.parent? x

namespace Planted

variable {done : List (String × BlockId)}

private theorem vacant (h : Planted owner done w w') (hl : w.Linked) {s : String}
    (hne : ∀ q ∈ done, q.1 ≠ s) (ho : w.occupant? (.input owner s) = none) :
    w'.occupant? (.input owner s) = none := by
  cases ho' : w'.occupant? (.input owner s) with
  | none => rfl
  | some c =>
    -- it would have been there from the start, or come in under another name
    have hc := (h.linked.link _ _).mp ho'
    by_cases hm : c ∈ done.map (·.2)
    · obtain ⟨q, hq, rfl⟩ := List.mem_map.mp hm
      have hi := Option.some.inj ((h.planted q hq).symm.trans hc)
      exact absurd (Attachment.input.inj hi).2 (hne q hq)
    · rw [h.kept c hm, ← hl.link, ho] at hc
      cases hc

private theorem snoc (h : Planted owner done w w') {p : String × BlockId} (hhas : w'.has p.2)
    (hl : (w'.attached (.input owner p.1) p.2).Linked) (hnew : ∀ q ∈ done, q.2 ≠ p.2) :
    Planted owner (done ++ [p]) w (w'.attached (.input owner p.1) p.2) := by
  refine ⟨hl, shapes_attached.trans h.shapes, ids_attached.trans h.ids,
    fun x => bare?_attached.trans (h.bare x), fun q hq => ?_, fun x hx => ?_⟩
  · rw [parent?_attached hhas]
    rcases List.mem_append.mp hq with hq | hq
    · rw [if_neg (hnew q hq), h.planted q hq]
    · rw [if_pos (congrArg _ (List.mem_singleton.mp hq)), List.mem_singleton.mp hq]
  · rw [List.map_append, List.mem_append, not_or] at hx
    rw [parent?_attached hhas, if_neg (by simpa using hx.2)]
    exact h.kept x hx.1

end Planted

theorem Linked.ensures_plantAll (h : w.Linked) (hnames : (plan.map (·.1)).Nodup)
    (hblocks : (plan.map (·.2)).Nodup)
    (hoffers : ∀ p ∈ plan, w.offers (.input owner p.1) ∧ w.occupant? (.input owner p.1) = none)
    (hfree : ∀ p ∈ plan, w.has p.2 ∧ w.parent? p.2 = none) :
    (plan.forM fun p => attachInput owner p.1 p.2).Ensures w
      (fun _ w' => Planted owner plan w w') fun _ _ => False := by
  refine (ensures_forM (I := fun rest w' => ∃ done, done ++ rest = plan ∧
    Planted owner done w w') ?_ plan w
    ⟨[], rfl, h, rfl, rfl, fun _ => rfl, by simp, fun _ _ => rfl⟩).mono ?_ fun _ _ h' => h'
  · rintro p rest w' ⟨done, hd, hw'⟩
    have hp : p ∈ plan := hd ▸ by simp
    have hapart (q : String × BlockId) (hq : q ∈ done) : q.1 ≠ p.1 ∧ q.2 ≠ p.2 := by
      rw [← hd, List.map_append] at hnames hblocks
      exact ⟨fun he => (List.nodup_append.mp hnames).2.2 _ (List.mem_map_of_mem hq) p.1 (by simp) he,
        fun he => (List.nodup_append.mp hblocks).2.2 _ (List.mem_map_of_mem hq) p.2 (by simp) he⟩
    have hnew : p.2 ∉ done.map (·.2) := by
      intro hm
      obtain ⟨q, hq, he⟩ := List.mem_map.mp hm
      exact (hapart q hq).2 he
    have hhas : w'.has p.2 := by
      rw [has_congr (hw'.bare _)]
      exact (hfree p hp).1
    have htop : w'.parent? p.2 = none := (hw'.kept _ hnew).trans (hfree p hp).2
    have hof : w'.offers (.input owner p.1) := (offers_congr (hw'.bare _)).trans (hoffers p hp).1
    have hvacant := hw'.vacant h (fun q hq => (hapart q hq).1) (hoffers p hp).2
    refine ensures_attachInput hhas (fun _ => ?_) fun hno => absurd hof hno
    exact ⟨done ++ [p], by simpa using hd,
      hw'.snoc hhas (hw'.linked.attached hof hvacant hhas htop) fun q hq => (hapart q hq).2⟩
  · rintro _ w' ⟨done, hd, hw'⟩
    rwa [← hd, List.append_nil]

/-- What replanting a block of a forest leads to. -/
structure Transplanted (owner : BlockId) (b : Block) (shape : Shape) (m : Mutation)
    (plan : List (String × BlockId)) (w w' : Workspace) : Prop where
  linked : w'.Linked
  shapes : w'.shapes = w.shapes
  ids : w'.ids.Sublist w.ids
  gone : ∀ x, w.Dropped (w.spare plan) b.unitTargets x → ¬ w'.has x
  bare : ∀ x, ¬ w.Dropped (w.spare plan) b.unitTargets x →
    w'.bare? x = if x = owner then (w.bare? x).map (·.reshaped shape m) else w.bare? x
  planted : ∀ p ∈ plan, w'.parent? p.2 = some (.input owner p.1)
  freed : ∀ x ∈ b.unitTargets, x ∉ plan.map (·.2) → w'.parent? x = none
  kept : ∀ x, ¬ w.Dropped (w.spare plan) b.unitTargets x → x ∉ b.unitTargets →
    x ∉ plan.map (·.2) → w'.parent? x = w.parent? x

/-- What is planned in a forest is not beneath a block that is dropped. -/
theorem Acyclic.not_dropped_of_planned (ha : w.Acyclic) (hl : w.Linked)
    (hb : w.find? owner = some b) (hre : ∀ p ∈ plan, w.reattachable p.2 owner)
    {p : String × BlockId} (hp : p ∈ plan) : ¬ w.Dropped (w.spare plan) b.unitTargets p.2 := by
  rintro ⟨c, hc, hspare, hu⟩
  obtain ⟨k, -, -, hplace⟩ := (hl.mem_unitTargets hb).mp hc
  have hne : c ≠ p.2 := by
    rintro rfl
    have : (plan.any fun q => q.2 = p.2) = true := List.any_eq_true.mpr ⟨p, hp, by simp⟩
    simp [spare, this] at hspare
  rcases (reattachable_iff.mp (hre p hp)).2 with htop | ⟨s, hs⟩
  · exact hne (hu.eq_of_top htop)
  · exact hne (ha.siblings hplace hs rfl hu)

/-- A block is beneath nothing that its sockets hold. -/
theorem Acyclic.not_dropped_owner (ha : w.Acyclic) (hl : w.Linked)
    (hb : w.find? owner = some b) {drop : BlockId → Bool} {P : Socket → Bool} :
    ¬ w.Dropped drop ((b.sockets.filter P).filterMap (·.target)) owner := by
  rintro ⟨c, hc, -, hu⟩
  obtain ⟨k, -, -, hplace⟩ := (hl.mem_targets hb).mp hc
  exact ha.not_under hplace hu

/-- A forest on its way to a replanted block, up to where the planned blocks are plugged in: the units
are cut off, the planned blocks are free, and the owner is rebuilt. -/
structure Uprooted (owner : BlockId) (b : Block) (shape : Shape) (m : Mutation)
    (plan : List (String × BlockId)) (w w1 w2 w3 : Workspace) : Prop where
  cut : CutOff w (w.spare plan) b.unitTargets w1
  freed : CutOff w1 (fun _ => false) (plan.map (·.2)) w2
  cleared : Cleared owner b plan w w2
  root : w2.bare? owner = some b.bare
  rebuilt : Rebuilt w2 owner shape m w3

theorem CutOff.bare_of_kept {done : List BlockId} (h : CutOff w (fun _ => false) done w') :
    w'.bare? x = w.bare? x :=
  h.bare x (by rintro ⟨_, _, he, _⟩; cases he)

private theorem CutOff.parent_of_kept {done : List BlockId} (h : CutOff w (fun _ => false) done w')
    (hx : x ∉ done) : w'.parent? x = w.parent? x :=
  h.kept x (by rintro ⟨_, _, he, _⟩; cases he) hx

/-- Replanting a block of a forest is decided by what plugging in the planned blocks leads to. -/
theorem Sound.ensures_replant_of_uprooted (h : Sound True typed w) (hb : w.find? owner = some b)
    (hshape : w.shapes.get? b.type = some shape)
    (hre : ∀ p ∈ plan, w.reattachable p.2 owner) {ok : Unit → Workspace → Prop}
    {refused : EditError → Workspace → Prop}
    (hplant : ∀ w1 w2 w3, Uprooted owner b shape m plan w w1 w2 w3 →
      (plan.forM fun p => attachInput owner p.1 p.2).Ensures w3 ok refused) :
    (replant owner shape m plan).Ensures w ok refused := by
  have ha := h.acyclic trivial
  have hdrop {p : String × BlockId} (hp : p ∈ plan) :=
    ha.not_dropped_of_planned h.linked hb hre hp
  unfold replant
  simp only [ensures_bind, ensures_require, hb]
  refine (h.linked.ensures_cutOffUnits ha hb).mono (fun _ w1 h1 => ?_) fun _ _ h' => h'.elim
  have hhas1 : ∀ p ∈ plan, w1.has p.2 := fun p hp => by
    rw [has_congr (h1.bare _ (hdrop hp))]
    exact (reattachable_iff.mp (hre p hp)).1
  refine (h1.linked.ensures_detachAll hhas1).mono (fun _ w2 h2 => ?_) fun _ _ h' => h'.elim
  have hpruned := h1.pruned.trans h2.pruned
  have hs2 : Sound True typed w2 := h.of_pruned hpruned h2.linked
  have hown2 : w2.bare? owner = some b.bare := by
    rw [h2.bare_of_kept, h1.bare _ (ha.not_dropped_owner h.linked hb)]
    simp [bare?, hb]
  have hc : Cleared owner b plan w w2 := by
    refine ⟨hpruned, fun k hk hs => ?_, fun p hp => ⟨?_, h2.free _ (List.mem_map_of_mem hp)⟩⟩
    · cases ho : w2.occupant? (.input owner k.name) with
      | none => rfl
      | some c =>
        have hp := (h2.linked.link _ _).mp ho
        have hc := (h.linked.mem_unitTargets hb).mpr ⟨k, hk, hs, hpruned.parent _ _ hp⟩
        simp [h2.pruned.top (h1.free c hc)] at hp
    · rw [has_congr h2.bare_of_kept]
      exact hhas1 p hp
  exact hc.ensures_rebuild h hs2 hb hshape (fun _ w3 hr => hplant w1 w2 w3 ⟨h1, h2, hc, hown2, hr⟩)
    fun hlost => (hlost (has_of_bare? hown2)).elim

/-- In a forest replanting is never refused: the planned blocks are transplanted, and what else the
units held is severed. -/
theorem Sound.ensures_transplant (h : Sound True typed w) (hb : w.find? owner = some b)
    (hshape : w.shapes.get? b.type = some shape)
    (hsame : shape.connectorsOf m = shape.connectorsOf b.mutation) (hplan : Plan shape m plan)
    (hre : ∀ p ∈ plan, w.reattachable p.2 owner) (hfits : Fitting False shape m plan w) :
    (replant owner shape m plan).Ensures w
      (fun _ w' => Transplanted owner b shape m plan w w') fun _ _ => False := by
  refine h.ensures_replant_of_uprooted hb hshape hre fun w1 w2 w3 hup => ?_
  obtain ⟨h1, h2, hc, hown2, hr⟩ := hup
  have hpruned := h1.pruned.trans h2.pruned
  have hs2 : Sound True typed w2 := h.of_pruned hpruned h2.linked
  have hparent3 := hs2.parent?_rebuilt hown2 (hpruned.shapes ▸ hshape) hsame hr
  have hready : Ready False False owner plan plan w3 :=
    hc.ready h.weaken hs2.weaken hr
      (has_of_bare? hown2) hb hshape hsame hplan False.elim hfits
  refine (hready.sound.linked.ensures_plantAll hready.names hready.blocks
    (fun p hp => ⟨hready.offers p hp, hready.vacant p hp⟩) hready.free).mono (fun _ w4 h4 => ?_)
      fun _ _ h' => h'
  refine ⟨h4.linked, ?_, ?_, fun x hx => ?_, fun x hx => ?_, h4.planted, fun x hx hp => ?_,
    fun x hx hu hp => ?_⟩
  · rw [h4.shapes, hr.shapes, hpruned.shapes]
  · rw [h4.ids, hr.ids]
    exact h2.ids.trans h1.ids
  · rw [has_congr (h4.bare _), hr.has, has_congr h2.bare_of_kept]
    exact h1.gone x hx
  · rw [h4.bare, hr.bare, h2.bare_of_kept, h1.bare x hx]
  · rw [h4.kept x hp, hparent3, h2.parent_of_kept hp, h1.free x hx]
  · rw [h4.kept x hp, hparent3, h2.parent_of_kept hp, h1.kept x hx hu]

namespace Transplanted

/-- Plugging in a block that the owner is, or is beneath, closes a circle. -/
theorem not_acyclic (ht : Transplanted owner b shape m plan w w') (h : Sound True typed w)
    (hb : w.find? owner = some b) (hre : ∀ p ∈ plan, w.reattachable p.2 owner)
    {p : String × BlockId} (hp : p ∈ plan) (hu : w.Under p.2 owner) : ¬ w'.Acyclic := by
  have ha := h.acyclic trivial
  refine Workspace.not_acyclic (ht.planted p hp) (hu.keep fun y hy hyo hne => ?_)
  -- nothing on the way up from the owner is moved, since it is neither in a unit nor free
  refine ht.kept y ?_ (fun hm => ?_) fun hm => ?_
  · rintro ⟨e, he, -, hue⟩
    obtain ⟨k, -, -, hplace⟩ := (h.linked.mem_unitTargets hb).mp he
    exact ha.not_under hplace (hue.trans hyo)
  · obtain ⟨k, -, -, hplace⟩ := (h.linked.mem_unitTargets hb).mp hm
    exact ha.not_under hplace hyo
  · obtain ⟨q, hq, rfl⟩ := List.mem_map.mp hm
    rcases (reattachable_iff.mp (hre q hq)).2 with htop | ⟨s, hplace⟩
    · exact hne (hy.eq_of_top htop).symm
    · exact ha.not_under hplace hyo

/-- A socket of a unit holds what is planned for it. -/
theorem occupant?_unit (ht : Transplanted owner b shape m plan w w') (h : Sound rooted typed w)
    (hb : w.find? owner = some b) (hshape : w.shapes.get? b.type = some shape) {k : Socket}
    (hk : k ∈ shape.layout m) (hs : k.structural) :
    w'.occupant? (.input owner k.name) = some c ↔ (k.name, c) ∈ plan := by
  rw [ht.linked.link]
  refine ⟨fun hp => ?_, fun hp => ht.planted _ hp⟩
  by_cases hplan : c ∈ plan.map (·.2)
  · obtain ⟨p, hpm, rfl⟩ := List.mem_map.mp hplan
    have hname := (Attachment.input.inj (Option.some.inj ((ht.planted p hpm).symm.trans hp))).2
    exact hname ▸ hpm
  by_cases hu : c ∈ b.unitTargets
  · simp [ht.freed c hu hplan] at hp
  rw [ht.kept c (fun hd => ht.gone c hd (has_of_parent? hp)) hu hplan] at hp
  -- the old socket of that name would be the same, so `c` would be in a unit
  obtain ⟨k', hk', -⟩ := Option.bind_eq_some_iff.mp
    (by simpa [occupant?, hb, Block.target?] using (h.linked.link _ _).mpr hp)
  have hmem := List.mem_of_find?_eq_some hk'
  have hname : k'.name = k.name := by simpa using List.find?_some hk'
  have hold : k'.emptied ∈ shape.layout b.mutation :=
    (h.layout hb hshape).1 ▸ List.mem_map_of_mem hmem
  have he := (h.distinct shape (ShapeRegistry.mem_of_get? hshape).1).agree hold hk hname
  have hs' : k'.emptied.structural := he ▸ hs
  exact absurd ((h.linked.mem_unitTargets hb).mpr ⟨k', hmem, hs', hname ▸ hp⟩) hu

/-- Where only blocks of units are planned, all other places hold what they held. -/
theorem occupant?_eq (ht : Transplanted owner b shape m plan w w') (h : Sound rooted typed w)
    (hb : w.find? owner = some b) (hshape : w.shapes.get? b.type = some shape)
    (hplan : Plan shape m plan) (hunits : ∀ p ∈ plan, p.2 ∈ b.unitTargets)
    (hleft : ¬ w.Dropped (w.spare plan) b.unitTargets place.block)
    (hplace : ∀ m', ∀ k ∈ shape.layout m', k.structural → place ≠ .input owner k.name) :
    w'.occupant? place = w.occupant? place := by
  have hfree {c : BlockId} (hc : c ∉ b.unitTargets) : c ∉ plan.map (·.2) := by
    intro hm
    obtain ⟨p, hp, rfl⟩ := List.mem_map.mp hm
    exact hc (hunits p hp)
  refine Option.ext fun c => ?_
  rw [ht.linked.link, h.linked.link]
  constructor
  · intro hp
    have hc : c ∉ plan.map (·.2) := by
      intro hm
      obtain ⟨p, hpm, rfl⟩ := List.mem_map.mp hm
      obtain ⟨k, hk, hname, hs⟩ := hplan.structural p hpm
      exact hplace m k hk hs (hname ▸ Option.some.inj (hp.symm.trans (ht.planted p hpm)))
    have hu : c ∉ b.unitTargets := fun hu => by simp [ht.freed c hu hc] at hp
    rwa [ht.kept c (fun hd => ht.gone c hd (has_of_parent? hp)) hu hc] at hp
  · intro hp
    have hu : c ∉ b.unitTargets := by
      intro hu
      obtain ⟨k, hk, hs, hp'⟩ := (h.linked.mem_unitTargets hb).mp hu
      exact hplace b.mutation k.emptied ((h.layout hb hshape).1 ▸ List.mem_map_of_mem hk) hs
        (Option.some.inj (hp.symm.trans hp'))
    rwa [ht.kept c ?_ hu (hfree hu)]
    rintro ⟨e, he, hspare, hue⟩
    cases hue with
    | self => exact hu he
    | step hp' hue =>
      cases Option.some.inj (hp.symm.trans hp')
      exact hleft ⟨e, he, hspare, hue⟩

/-- A block that is neither the owner nor dropped stays as it is, except for its place. -/
theorem find?_of_ne (ht : Transplanted owner b shape m plan w w') (h : Sound rooted typed w)
    (hb : w.find? owner = some b) (hshape : w.shapes.get? b.type = some shape)
    (hplan : Plan shape m plan) (hunits : ∀ p ∈ plan, p.2 ∈ b.unitTargets) {d : Block}
    (hd : w.find? x = some d) (hne : x ≠ owner)
    (hleft : ¬ w.Dropped (w.spare plan) b.unitTargets x) :
    w'.find? x = some { d with parent := w'.parent? x } := by
  have hsame (place : Attachment) (hx : place.block = x) :
      w'.occupant? place = w.occupant? place := by
    refine ht.occupant?_eq h hb hshape hplan hunits (hx ▸ hleft) fun _ k _ _ he => hne ?_
    rw [← hx, he]
    rfl
  refine ht.linked.find?_eq ?_ (fun n => ?_) ?_ rfl
  · rw [ht.bare x hleft, if_neg hne]
    simp [bare?, hd, Block.bare]
  · rw [hsame (.input x n) rfl]
    simp [occupant?, hd, Block.target?, Block.socket?]
  · rw [hsame (.next x) rfl]
    simp [occupant?, hd]

end Transplanted

end replant

end Workspace

end BlockProgram
