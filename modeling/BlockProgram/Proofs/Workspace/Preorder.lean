import BlockProgram.Proofs.Workspace.Forest

/-! The two directions of walking agree in a forest. The descendants of a block are the blocks that have it as an
ancestor, listed in pre-order; and the descendants of the blocks at the top are all blocks, each once. -/
namespace BlockProgram.Workspace

variable {w : Workspace} {a c d p x : BlockId} {b : Block} {heads out found : List BlockId}

/-- Nothing is beneath two blocks that are plugged in at the same one. -/
theorem Acyclic.siblings_eq (ha : w.Acyclic) (hc : w.Up c p) (hd : w.Up d p)
    (hu : w.Under c x) (hu' : w.Under d x) : c = d := by
  have hone {c d : BlockId} (hc : w.Up c p) (hd : w.Up d p) (h : w.Under c d) : c = d := by
    cases h with
    | self => rfl
    | step hp h =>
      obtain ⟨q, hq, hqp⟩ := hd
      obtain ⟨r, hr, hrp⟩ := hc
      obtain rfl := Option.some.inj (hq.symm.trans hp)
      exact (ha.not_under hr (by rwa [hrp, ← hqp])).elim
  rcases hu.linear hu' with h | h
  · exact hone hc hd h
  · exact (hone hd hc h).symm

/-- What is beneath one of two blocks that are plugged in at the same one is beneath the other only if they
are the same. -/
theorem Paired.mem_descendants_sibling (hp : w.Paired) (ha : w.Acyclic) (hb : w.has c)
    (hc : w.Up c p) (hd : w.Up d p) (hx : w.Under d x) : x ∈ w.descendants c ↔ d = c := by
  rw [hp.mem_descendants hb]
  constructor
  · intro hu
    exact ha.siblings_eq hd hc hx hu
  · rintro rfl
    exact hx

/-- A search from one block that has come to nothing beneath it finds its descendants. -/
theorem Searches.eq_append_descendants (hp : w.Paired) (h : w.Searches [c] out found)
    (hfresh : ∀ x, w.Under c x → x ∉ out) : found = out ++ w.descendants c := by
  obtain ⟨new, rfl, hnew⟩ := h.elsewhere [] fun s hs y hy => by
    obtain rfl := List.mem_singleton.mp hs
    simpa using hfresh y (hp.reflTransGen_down.mp hy)
  rw [(w.searches_descendants c).unique hnew, List.nil_append]

/-- A search that starts at blocks which are plugged in at one block finds the descendants of each, unless it
has come to that one before. -/
theorem Searches.siblings (hp : w.Paired) (ha : w.Acyclic) (h : w.Searches heads out found)
    (hup : ∀ c ∈ heads, w.Up c p) (hfresh : ∀ c ∈ heads, c ∉ out → ∀ x, w.Under c x → x ∉ out) :
    found = out ++ (heads.filter (· ∉ out)).eraseDups.flatMap w.descendants := by
  induction heads generalizing out with
  | nil =>
    cases h
    simp
  | cons c heads ih =>
    obtain ⟨hc, hheads⟩ := List.forall_mem_cons.mp hup
    obtain ⟨hcfresh, hrest⟩ := List.forall_mem_cons.mp hfresh
    cases h with
    | missing hx =>
      obtain ⟨place, hplace, -⟩ := hc
      obtain ⟨b, hb⟩ := has_iff.mp (has_of_parent? hplace)
      simp [hx] at hb
    | again hx hr =>
      rw [ih hr hheads hrest, List.filter_cons_of_neg (by simpa using hx)]
    | enter hb hx hin hr =>
      have hself : w.Searches [c] out _ := .enter hb hx hin .done
      obtain rfl := hself.eq_append_descendants hp (hcfresh hx)
      -- all that is beneath `c` has been found now, and nothing beneath another head has
      have hmem (d : BlockId) (hd : d ∈ heads) (y : BlockId) (hy : w.Under d y) :
          y ∈ w.descendants c ↔ d = c :=
        hp.mem_descendants_sibling ha (has_iff.mpr ⟨_, hb⟩) hc (hheads d hd) hy
      have hleft : heads.filter (· ∉ out ++ w.descendants c) =
          (heads.filter (· ∉ out)).filter fun d => !d == c := by
        rw [List.filter_filter]
        apply List.filter_congr
        intro d hd
        have hd := hmem d hd d .self
        by_cases hdc : d = c
        · rw [decide_eq_false (by simp [hd.mpr hdc])]
          simp [hdc]
        · simp [hdc, hd]
      rw [ih hr hheads ?_, hleft, List.filter_cons_of_pos (by simpa using hx), List.eraseDups_cons,
        List.flatMap_cons, List.append_assoc]
      intro d hd hout y hy
      rw [List.mem_append, not_or] at hout ⊢
      rw [hmem d hd y hy]
      rw [hmem d hd d .self] at hout
      exact ⟨hrest d hd hout.1 y hy, hout.2⟩

/-- A block comes first, then the descendants of what its sockets hold, in their order, and then of what follows
it. A block that several sockets of one name hold comes once. -/
theorem Paired.descendants_eq (hp : w.Paired) (ha : w.Acyclic) (hb : w.find? a = some b) :
    w.descendants a = a :: (b.targets ++ b.next.toList).eraseDups.flatMap w.descendants := by
  have hs := w.searches_descendants a
  have hup (c : BlockId) (hc : c ∈ b.targets ++ b.next.toList) : w.Up c a := (hp a c).mp ⟨b, hb, hc⟩
  have hbeneath (c : BlockId) (hc : c ∈ b.targets ++ b.next.toList) : ¬ w.Under c a := by
    obtain ⟨place, hplace, rfl⟩ := hup c hc
    exact ha.not_under hplace
  cases hs with
  | missing hnone => simp [hb] at hnone
  | again hmem => cases hmem
  | enter hb' _ hin hr =>
    cases hr
    obtain rfl := Option.some.inj (hb.symm.trans hb')
    rw [hin.siblings hp ha hup ?_, List.filter_eq_self.mpr ?_]
    · rfl
    · intro c hc
      have hne : c ≠ a := by
        rintro rfl
        exact hbeneath _ hc .self
      simpa using hne
    · intro c hc _ x hx hmem
      obtain rfl : x = a := by simpa using hmem
      exact hbeneath c hc hx

theorem Rooted.exists_top (h : w.Rooted x) : ∃ t, w.has t ∧ w.parent? t = none ∧ w.Under t x := by
  induction h with
  | top hx hp => exact ⟨_, hx, hp, .self⟩
  | under hp _ ih =>
    obtain ⟨t, ht, htop, hu⟩ := ih
    exact ⟨t, ht, htop, .step hp hu⟩

namespace Forest

private theorem parent?_iff (h : w.Forest) {place : Attachment} :
    w.parent? c = some place ↔ ∃ d ∈ w.blocks, d.id = c ∧ d.parent = some place := by
  constructor
  · intro hp
    obtain ⟨d, hd, hp⟩ := Option.bind_eq_some_iff.mp hp
    exact ⟨d, (mem_of_find? hd).1, (mem_of_find? hd).2, hp⟩
  · rintro ⟨d, hd, rfl, hp⟩
    rw [parent?, h.found d hd]
    exact hp

theorem paired (h : w.Forest) : w.Paired := by
  intro p c
  constructor
  · rintro ⟨b, hb, hc⟩
    obtain ⟨hmem, rfl⟩ := mem_of_find? hb
    rcases List.mem_append.mp hc with hc | hc
    · obtain ⟨k, hk, ht⟩ := List.mem_filterMap.mp hc
      have hd := (h.input b.id k.name c).mp ⟨b, hmem, rfl, k, hk, rfl, ht⟩
      exact ⟨_, h.parent?_iff.mpr hd, rfl⟩
    · have hd := (h.next b.id c).mp ⟨b, hmem, rfl, Option.mem_toList.mp hc⟩
      exact ⟨_, h.parent?_iff.mpr hd, rfl⟩
  · rintro ⟨place, hplace, rfl⟩
    have hd := h.parent?_iff.mp hplace
    cases place with
    | input p s =>
      obtain ⟨b, hb, rfl, k, hk, -, ht⟩ := (h.input p s c).mpr hd
      exact ⟨b, h.found b hb, List.mem_append_left _ (List.mem_filterMap.mpr ⟨k, hk, ht⟩)⟩
    | next p =>
      obtain ⟨b, hb, rfl, hn⟩ := (h.next p c).mpr hd
      exact ⟨b, h.found b hb, List.mem_append_right _ (Option.mem_toList.mpr hn)⟩

theorem acyclic (h : w.Forest) : w.Acyclic := fun x hx => h.rooted x (has_iff_mem_ids.mp hx)

/-- Whatever is beneath a block has it as an ancestor. -/
theorem mem_descendants_iff (h : w.Forest) (ha : w.has a) :
    x ∈ w.descendants a ↔ x = a ∨ w.isAncestor a x := by
  rw [h.paired.mem_descendants ha, isAncestor_iff_transGen, ← reflTransGen_up,
    Relation.reflTransGen_iff_eq_or_transGen, eq_comm]

/-- Every block is beneath one block at the top. -/
theorem perm_flatMap_descendants (h : w.Forest) :
    (w.topBlocks.flatMap fun b => w.descendants b.id).Perm w.ids := by
  have htop {b : Block} (hb : b ∈ w.topBlocks) : w.has b.id ∧ w.parent? b.id = none := by
    obtain ⟨hmem, hparent⟩ := List.mem_filter.mp hb
    have hfind := h.found b hmem
    exact ⟨has_iff.mpr ⟨b, hfind⟩, by simpa [parent?, hfind] using hparent⟩
  have hdistinct : w.topBlocks.Pairwise fun b b' => b.id ≠ b'.id :=
    (List.pairwise_map.mp h.listed).filter _
  have hnodup : (w.topBlocks.flatMap fun b => w.descendants b.id).Nodup := by
    apply List.nodup_flatMap.mpr
    constructor
    · intro b _
      exact (w.searches_descendants b.id).nodup List.nodup_nil
    · apply hdistinct.imp_of_mem
      intro b b' hb hb' hne
      apply List.disjoint_left.mpr
      intro x hx hx'
      rw [h.paired.mem_descendants (htop hb).1] at hx
      rw [h.paired.mem_descendants (htop hb').1] at hx'
      rcases hx.linear hx' with hu | hu
      · exact hne (hu.eq_of_top (htop hb').2)
      · exact hne (hu.eq_of_top (htop hb).2).symm
  apply (List.perm_ext_iff_of_nodup hnodup h.listed).mpr
  intro x
  constructor
  · intro hx
    obtain ⟨b, hb, hx⟩ := List.mem_flatMap.mp hx
    exact has_iff_mem_ids.mp ((w.mem_descendants b.id x).mp hx).1
  · intro hx
    obtain ⟨t, ht, hp, hu⟩ := (h.rooted x hx).exists_top
    obtain ⟨b, hb⟩ := has_iff.mp ht
    obtain ⟨hmem, rfl⟩ := mem_of_find? hb
    have hparent : b.parent = none := by simpa [parent?, hb] using hp
    refine List.mem_flatMap.mpr ⟨b, List.mem_filter.mpr ⟨hmem, by simp [hparent]⟩, ?_⟩
    exact (h.paired.mem_descendants ht).mpr hu

end Forest

/-- Whatever the links of a workspace are, the walk along a chain and the search for descendants end and list
nothing twice, and an ancestor of a block is what one step up or more lead to. In a forest the descendants of a block
are that block and all that it is an ancestor of, in pre-order; and those of the blocks at the top are all
blocks of the workspace, each once. -/
theorem traversals_agree :
    (∀ (w : Workspace) (a b : BlockId),
      w.Follows [] ((w.find? a).map (·.id)) (w.chain a) ∧ (w.chain a).Nodup ∧
      w.Searches [a] [] (w.descendants a) ∧ (w.descendants a).Nodup ∧
      (w.isAncestor a b ↔ Relation.TransGen w.Up b a)) ∧
    ∀ w : Workspace, w.Forest →
      (∀ (a : BlockId) (b : Block), w.find? a = some b →
        (∀ x, x ∈ w.descendants a ↔ x = a ∨ w.isAncestor a x) ∧
        w.descendants a = a :: (b.targets ++ b.next.toList).eraseDups.flatMap w.descendants) ∧
      (w.topBlocks.flatMap fun b => w.descendants b.id).Perm w.ids := by
  constructor
  · intro w a b
    have hchain := w.follows_chain a
    have hsearch := w.searches_descendants a
    exact ⟨hchain, hchain.nodup.1, hsearch, hsearch.nodup List.nodup_nil, isAncestor_iff_transGen⟩
  · intro w h
    refine ⟨fun a b hb => ?_, h.perm_flatMap_descendants⟩
    exact ⟨fun x => h.mem_descendants_iff (has_iff.mpr ⟨b, hb⟩), h.paired.descendants_eq h.acyclic hb⟩

/-- The number of turns of a loop comes before the loop's body, and what follows the loop comes last, whatever
the order in which the blocks were added. -/
theorem traversals_agree_of_loop :
    let w := [Action.add ⟨"last"⟩ "text_print" false, .add ⟨"loop"⟩ "controls_repeat_ext" false,
      .add ⟨"first"⟩ "text_print" false, .add ⟨"turns"⟩ "math_number" false,
      .connectStatement ⟨"loop"⟩ "DO" ⟨"first"⟩, .connectValue ⟨"loop"⟩ "TIMES" ⟨"turns"⟩,
      .add ⟨"after"⟩ "text_print" false, .connectNext ⟨"loop"⟩ ⟨"after"⟩,
      .connectNext ⟨"first"⟩ ⟨"last"⟩].foldl Action.apply (.empty Python.standard.shapes)
    w.Forest ∧ w.descendants ⟨"loop"⟩ = [⟨"loop"⟩, ⟨"turns"⟩, ⟨"first"⟩, ⟨"last"⟩, ⟨"after"⟩] ∧
      (w.topBlocks.flatMap fun b => w.descendants b.id).Perm w.ids := by
  intro w
  have hs : Sound True False w := (Edited.empty.run _).sound Python.standard_distinct False.elim
  have h : w.Forest := hs.linked.forest (hs.acyclic trivial)
  exact ⟨h, by decide +kernel, (traversals_agree.2 w h).2⟩

end BlockProgram.Workspace
