import BlockProgram.Proofs.Python.Recipe
import BlockProgram.Proofs.Workspace.Nesting
import BlockProgram.Proofs.Workspace.Valid

/-! Which blocks a run comes to. A rule asks for the blocks in the sockets of its block, except that an
element at an end of a list needs no index. -/
namespace BlockProgram.Python

/-- The index of an element that is the first or the last one of its list is not asked for. -/
def Unused (b : Block) (socket : String) : Prop :=
  b.type = "lists_get_index" ∧ socket = "AT" ∧
    (b.field? "WHERE" = some (.choice "FIRST") ∨ b.field? "WHERE" = some (.choice "LAST"))

instance (b : Block) (socket : String) : Decidable (Unused b socket) := by
  unfold Unused
  infer_instance

/-- The blocks that are reached from the heads of the chains of a program along sockets and chains. -/
inductive Reached (w : Workspace) : BlockId → Prop where
  | root {x : BlockId} (h : x ∈ Generator.roots w) : Reached w x
  | socket {p c : BlockId} {b : Block} {k : Socket} (h : Reached w p) (hb : w.find? p = some b)
      (hk : k ∈ b.sockets) (hused : ¬ Unused b k.name) (ht : k.target = some c) : Reached w c
  | next {p c : BlockId} {b : Block} (h : Reached w p) (hb : w.find? p = some b)
      (hn : b.next = some c) : Reached w c

/-- The blocks that a rule asks for when it comes to a socket. -/
def slotCalls (w : Workspace) (kind : SocketKind) (target : Option BlockId) : List BlockId :=
  match kind with
  | .value => target.toList
  | .statement => target.toList.flatMap w.chain
  | .dummy => []

/-- The blocks that the rule of a block asks for, in their order. -/
def calls (w : Workspace) (b : Block) : List BlockId :=
  b.sockets.flatMap fun k => if Unused b k.name then [] else slotCalls w k.kind k.target

/-- The blocks that the rule of the block of an id asks for. -/
def callsOf (w : Workspace) (id : BlockId) : List BlockId :=
  (w.find? id).toList.flatMap (calls w)

theorem callsOf_eq {w : Workspace} {id : BlockId} {b : Block} (hb : w.find? id = some b) :
    callsOf w id = calls w b := by
  unfold callsOf
  rw [hb, Option.toList_some, List.flatMap_singleton]

section within

variable {next : BlockId → List BlockId} {a c d x : BlockId} {n m : Nat}

/-- `n` calls lead from `a` to `x`. -/
inductive Within (next : BlockId → List BlockId) (a : BlockId) : BlockId → Nat → Prop where
  | self : Within next a a 0
  | call {p c : BlockId} {n : Nat} (h : Within next a p n) (hc : c ∈ next p) :
      Within next a c (n + 1)

/-- Every block is called by one other at most, once, and calls do not go round. -/
structure Tree (next : BlockId → List BlockId) : Prop where
  nodup : ∀ p, (next p).Nodup
  unique : ∀ {p q c}, c ∈ next p → c ∈ next q → p = q
  acyclic : ∀ {p c n}, c ∈ next p → ¬ Within next c p n

namespace Within

theorem cons (hc : c ∈ next a) (h : Within next c x n) : Within next a x (n + 1) := by
  induction h with
  | self => exact .call .self hc
  | call _ hd ih => exact .call ih hd

theorem cases_cons (h : Within next a x n) :
    (x = a ∧ n = 0) ∨ ∃ c ∈ next a, ∃ k, n = k + 1 ∧ Within next c x k := by
  induction h with
  | self => exact .inl ⟨rfl, rfl⟩
  | @call p c n _ hd ih =>
    refine .inr ?_
    rcases ih with ⟨rfl, rfl⟩ | ⟨e, he, k, rfl, hk⟩
    · exact ⟨c, hd, 0, rfl, .self⟩
    · exact ⟨e, he, k + 1, rfl, .call hk hd⟩

theorem mono {next' : BlockId → List BlockId} (h : Within next a x n)
    (hsub : ∀ p, next p ⊆ next' p) : Within next' a x n := by
  induction h with
  | self => exact .self
  | call _ hc ih => exact .call ih (hsub _ hc)

/-- The calls that lead to a block are on one way. -/
theorem linear (ht : Tree next) (h : Within next a x n) (h' : Within next d x m) :
    (∃ k, Within next a d k) ∨ ∃ k, Within next d a k := by
  induction h generalizing m with
  | self => exact .inr ⟨m, h'⟩
  | @call p c n ha hc ih =>
    cases h' with
    | self => exact .inl ⟨n + 1, .call ha hc⟩
    | call h' hc' => exact ih (ht.unique hc' hc ▸ h')

/-- Nothing is within two blocks that the same one calls. -/
theorem siblings_eq (ht : Tree next) {p : BlockId} (hc : c ∈ next p) (hd : d ∈ next p)
    (h : Within next c x n) (h' : Within next d x m) : c = d := by
  have hone {c d : BlockId} (hc : c ∈ next p) (hd : d ∈ next p) {k : Nat}
      (h : Within next c d k) : c = d := by
    cases h with
    | self => rfl
    | call h hd' => exact (ht.acyclic hc (ht.unique hd' hd ▸ h)).elim
  obtain ⟨k, hk⟩ | ⟨k, hk⟩ := linear ht h h'
  · exact hone hc hd hk
  · exact (hone hd hc hk).symm

end Within

end within

section workspace

open Workspace

variable {w : Workspace} {p c x : BlockId} {b : Block} {k : Socket} {n : Nat}

/-- The rule of a block asks for what its sockets hold, but for an index that is not used. -/
theorem mem_callsOf : c ∈ callsOf w p ↔
    ∃ b, w.find? p = some b ∧ ∃ k ∈ b.sockets, ¬ Unused b k.name ∧ c ∈ slotCalls w k.kind k.target := by
  unfold callsOf calls
  cases w.find? p with
  | none => simp
  | some b =>
    simp only [Option.toList_some, List.flatMap_singleton, List.mem_flatMap, Option.some.injEq,
      exists_eq_left']
    refine exists_congr fun k => and_congr_right fun _ => ?_
    split <;> simp_all

theorem parent?_target (h : w.Linked) (hb : w.find? p = some b) (hk : k ∈ b.sockets)
    (ht : k.target = some c) : w.parent? c = some (.input p k.name) :=
  (h.link _ _).mp (occupant?_of_socket? hb (Block.socket?_of_mem (h.socket_names hb) hk) ht)

theorem parent?_of_target? {socket : String} (h : w.Linked) (hb : w.find? p = some b)
    (ht : b.target? socket = some c) : w.parent? c = some (.input p socket) :=
  (h.link _ _).mp (by simpa [occupant?, hb] using ht)

/-- What stands in a socket is a block, and the socket is no label. -/
theorem exists_target {rooted typed : Prop} (h : Sound rooted typed w) (hb : w.find? p = some b)
    (hk : k ∈ b.sockets) (ht : k.target = some c) :
    ∃ d, w.find? c = some d ∧ k.kind ≠ .dummy ∧ (typed → k.takes d.connectors) := by
  obtain ⟨b', k', d, hb', hk', hd, hplain, htakes⟩ := h.fits _ _ (parent?_target h.linked hb hk ht)
  obtain ⟨d, hfind, rfl⟩ := Option.map_eq_some_iff.mp hd
  have hbare : b' = b.bare := by simpa [bare?, hb] using hb'.symm
  have hsocket : b'.socket? k.name = some k.emptied := by
    rw [hbare, Block.socket?_bare, Block.socket?_of_mem (h.linked.socket_names hb) hk]
    rfl
  obtain rfl : k.emptied = k' := Option.some.inj (hsocket.symm.trans hk')
  exact ⟨d, hfind, hplain, htakes⟩

variable (h : Sound True True w)
include h

private theorem row_target (hb : w.find? p = some b) (hk : k ∈ b.sockets)
    (ht : k.target = some c) : w.Row c (w.chain c) :=
  h.linked.row_chain_of_acyclic (h.acyclic trivial) (has_of_parent? (parent?_target h.linked hb hk ht))

theorem row_of_target? {socket : String} (hb : w.find? p = some b) (ht : b.target? socket = some c) :
    w.Row c (w.chain c) :=
  h.linked.row_chain_of_acyclic (h.acyclic trivial) (has_of_parent? (parent?_of_target? h.linked hb ht))

private theorem encloses_of_mem_slotCalls (hb : w.find? p = some b) (hk : k ∈ b.sockets)
    (hc : c ∈ slotCalls w k.kind k.target) : w.Encloses p k.name c := by
  unfold slotCalls at hc
  split at hc
  · exact .input (parent?_target h.linked hb hk (Option.mem_toList.mp hc))
  · obtain ⟨t, ht, hc⟩ := List.mem_flatMap.mp hc
    have ht := Option.mem_toList.mp ht
    exact (row_target h hb hk ht).encloses h.linked (parent?_target h.linked hb hk ht) c hc
  · cases hc

theorem encloses_of_mem_callsOf (hc : c ∈ callsOf w p) : ∃ s, w.Encloses p s c := by
  obtain ⟨b, hb, k, hk, -, hc⟩ := mem_callsOf.mp hc
  exact ⟨k.name, encloses_of_mem_slotCalls h hb hk hc⟩

private theorem under_of_within (hx : Within (callsOf w) c x n) : w.Under c x := by
  induction hx with
  | self => exact .self
  | call _ hd ih =>
    obtain ⟨s, he⟩ := encloses_of_mem_callsOf h hd
    exact ih.trans he.under

/-- Blocks that links hold at both ends call each other without meeting or going round. -/
theorem tree_callsOf : Tree (callsOf w) where
  nodup p := by
    unfold callsOf
    cases hb : w.find? p with
    | none => simp
    | some b =>
      have hnames := List.pairwise_map.mp (h.linked.socket_names hb)
      simp only [Option.toList_some, List.flatMap_singleton]
      refine List.nodup_flatMap.mpr ⟨fun k hk => ?_, hnames.imp_of_mem ?_⟩
      · split
        · simp
        · unfold slotCalls
          split
          · cases k.target <;> simp
          · cases ht : k.target with
            | none => simp
            | some c =>
              rw [Option.toList_some, List.flatMap_singleton]
              exact (row_target h hb hk ht).nodup h.linked (h.acyclic trivial)
          · simp
      · intro k k' hk hk' hne
        refine List.disjoint_left.mpr fun c hc hc' => ?_
        dsimp only at hc hc'
        split at hc
        · cases hc
        · split at hc'
          · cases hc'
          · exact hne ((encloses_of_mem_slotCalls h hb hk hc).unique
              (encloses_of_mem_slotCalls h hb hk' hc')).2
  unique hc hc' := by
    obtain ⟨s, he⟩ := encloses_of_mem_callsOf h hc
    obtain ⟨s', he'⟩ := encloses_of_mem_callsOf h hc'
    exact (he.unique he').1
  acyclic hc hx := by
    obtain ⟨s, he⟩ := encloses_of_mem_callsOf h hc
    exact he.not_under (h.acyclic trivial) (under_of_within h hx)

theorem nested_of_within (hx : Within (callsOf w) c x n) (hc : w.Nested c 0) : w.Nested x n := by
  induction hx with
  | self => exact hc
  | call _ hd ih =>
    obtain ⟨s, he⟩ := encloses_of_mem_callsOf h hd
    exact he.nested ih

/-- What stands in a socket fits it. -/
theorem takes_target (hb : w.find? p = some b) (hk : k ∈ b.sockets) (ht : k.target = some c) :
    ∃ d, w.find? c = some d ∧ k.kind ≠ .dummy ∧ k.takes d.connectors := by
  obtain ⟨d, hd, hplain, htakes⟩ := exists_target h hb hk ht
  exact ⟨d, hd, hplain, htakes trivial⟩

/-- A socket that holds a block asks for it. -/
theorem mem_slotCalls (hb : w.find? p = some b) (hk : k ∈ b.sockets) (ht : k.target = some c) :
    c ∈ slotCalls w k.kind k.target := by
  obtain ⟨d, hd, hplain, htakes⟩ := takes_target h hb hk ht
  unfold slotCalls
  cases hkind : k.kind with
  | value => simpa using ht
  | statement =>
    rw [ht, Option.toList_some, List.flatMap_singleton]
    exact (row_target h hb hk ht).head_mem
  | dummy => exact (hplain hkind).elim

/-- An expression is not followed. -/
theorem next_of_output {d : Block} (hd : w.find? c = some d) (hout : d.connectors.output) :
    d.next = none := by
  cases hn : d.next with
  | none => rfl
  | some x =>
    obtain ⟨d', hd', hnext⟩ := h.follows c x ((h.linked.link _ _).mp (occupant?_of_next hd hn))
    obtain rfl : d.bare = d' := by simpa [bare?, hd] using hd'
    obtain ⟨shape, hshape, -, hconn⟩ := h.shaped c d.bare (Workspace.bare?_of_find? hd)
    have hout : d.bare.connectors.output := hout
    rw [hconn] at hout hnext
    have hfalse := (h.regular trivial).expression shape (ShapeRegistry.mem_of_get? hshape).1 _ hout
    simp [hfalse] at hnext

/-- The blocks at the top that a run comes to. -/
def tops (w : Workspace) : List BlockId := (Generator.roots w).flatMap w.chain

omit h in
private theorem parent?_root {r : BlockId} (hn : w.ids.Nodup) (hr : r ∈ Generator.roots w) :
    w.has r ∧ w.parent? r = none := by
  obtain ⟨b, hb, rfl⟩ := List.mem_map.mp hr
  have hhead : b ∈ w.topBlocks.filter fun b => !b.connectors.output := by
    split at hb
    · exact hb
    · exact (List.mem_filter.mp hb).1
  obtain ⟨hblock, htop⟩ := List.mem_filter.mp (List.mem_filter.mp hhead).1
  have hfind := find?_of_mem hn hblock
  exact ⟨has_iff.mpr ⟨b, hfind⟩, by simpa [parent?, hfind] using htop⟩

private theorem row_root {r : BlockId} (hr : r ∈ Generator.roots w) : w.Row r (w.chain r) :=
  h.linked.row_chain_of_acyclic (h.acyclic trivial) (parent?_root h.linked.nodup hr).1

theorem nested_of_mem_tops (hc : c ∈ tops w) : w.Nested c 0 := by
  obtain ⟨r, hr, hc⟩ := List.mem_flatMap.mp hc
  exact (row_root h hr).nested_zero h.linked (parent?_root h.linked.nodup hr).2 c hc

theorem indented_of_mem_tops (hc : c ∈ tops w) : w.Indented c 0 := by
  obtain ⟨r, hr, hc⟩ := List.mem_flatMap.mp hc
  exact (row_root h hr).indented h.linked (.top (parent?_root h.linked.nodup hr).2) c hc

theorem nodup_tops : (tops w).Nodup := by
  have hroots : (Generator.roots w).Nodup := by
    have hsub : (Generator.roots w).Sublist w.ids := by
      unfold Generator.roots
      refine List.Sublist.map _ ?_
      split
      · exact List.filter_sublist.trans List.filter_sublist
      · exact (List.filter_sublist.trans List.filter_sublist).trans List.filter_sublist
    exact hsub.nodup h.linked.nodup
  refine List.nodup_flatMap.mpr ⟨fun r hr => (row_root h hr).nodup h.linked (h.acyclic trivial), ?_⟩
  refine hroots.imp_of_mem ?_
  intro r r' hr hr' hne
  refine List.disjoint_left.mpr fun c hc hc' => hne ?_
  have hu := (row_root h hr).under h.linked c hc
  have hu' := (row_root h hr').under h.linked c hc'
  obtain hrr | hrr := hu.linear hu'
  · exact hrr.eq_of_top (parent?_root h.linked.nodup hr').2
  · exact (hrr.eq_of_top (parent?_root h.linked.nodup hr).2).symm

/-- A block is reached from one block at the top only. -/
theorem tops_eq_of_within {d : BlockId} {m : Nat} (hc : c ∈ tops w) (hd : d ∈ tops w)
    (hx : Within (callsOf w) c x n) (hx' : Within (callsOf w) d x m) : c = d := by
  have hone {c d : BlockId} (hd : d ∈ tops w) {k : Nat} (hx : Within (callsOf w) c d k) :
      c = d := by
    cases hx with
    | self => rfl
    | call _ hcall =>
      obtain ⟨s, he⟩ := encloses_of_mem_callsOf h hcall
      exact ((nested_of_mem_tops h hd).not_encloses he).elim
  obtain ⟨k, hk⟩ | ⟨k, hk⟩ := Within.linear (tree_callsOf h) hx hx'
  · exact hone hd hk
  · exact (hone hc hk).symm

/-- A rule that asks for a block asks for the one that follows it, too. -/
theorem mem_slotCalls_next (hb : w.find? p = some b) (hk : k ∈ b.sockets) {d : Block}
    (hd : w.find? c = some d) (hn : d.next = some x) (hc : c ∈ slotCalls w k.kind k.target) :
    x ∈ slotCalls w k.kind k.target := by
  unfold slotCalls at hc ⊢
  split at hc
  · -- an expression would be followed by a block
    rename_i hkind
    obtain ⟨d', hd', -, htakes⟩ := takes_target h hb hk (Option.mem_toList.mp hc)
    obtain rfl : d = d' := Option.some.inj (hd.symm.trans hd')
    simp only [Socket.takes, hkind, Bool.and_eq_true] at htakes
    simp [next_of_output h hd htakes.1] at hn
  · obtain ⟨t, ht, hc⟩ := List.mem_flatMap.mp hc
    exact List.mem_flatMap.mpr ⟨t, ht,
      (row_target h hb hk (Option.mem_toList.mp ht)).next_mem hc (occupant?_of_next hd hn)⟩
  · cases hc

private theorem exists_within_of_reached (hx : Reached w x) :
    ∃ c ∈ tops w, ∃ n, Within (callsOf w) c x n := by
  induction hx with
  | @root x hr => exact ⟨x, List.mem_flatMap.mpr ⟨x, hr, (row_root h hr).head_mem⟩, 0, .self⟩
  | @socket p c b k _ hb hk hused ht ih =>
    obtain ⟨top, htop, n, hn⟩ := ih
    exact ⟨top, htop, n + 1,
      .call hn (mem_callsOf.mpr ⟨b, hb, k, hk, hused, mem_slotCalls h hb hk ht⟩)⟩
  | @next p c b _ hb hn ih =>
    obtain ⟨top, htop, n, hwithin⟩ := ih
    cases hwithin with
    | self =>
      obtain ⟨r, hr, hp⟩ := List.mem_flatMap.mp htop
      have hmem := (row_root h hr).next_mem hp (occupant?_of_next hb hn)
      exact ⟨c, List.mem_flatMap.mpr ⟨r, hr, hmem⟩, 0, .self⟩
    | @call q _ m hq hcall =>
      obtain ⟨e, he, k, hk, hused, hp⟩ := mem_callsOf.mp hcall
      have hmem := mem_slotCalls_next h he hk hb hn hp
      exact ⟨top, htop, m + 1, .call hq (mem_callsOf.mpr ⟨e, he, k, hk, hused, hmem⟩)⟩

omit h in
private theorem Reached.follow (hp : Reached w p) (hn : w.occupant? (.next p) = some c) :
    Reached w c := by
  obtain ⟨d, hd, hn⟩ := Option.bind_eq_some_iff.mp hn
  exact .next hp hd hn

private theorem reached_of_mem_slotCalls (hp : Reached w p) (hb : w.find? p = some b)
    (hk : k ∈ b.sockets) (hused : ¬ Unused b k.name) (hc : c ∈ slotCalls w k.kind k.target) :
    Reached w c := by
  unfold slotCalls at hc
  split at hc
  · exact .socket hp hb hk hused (Option.mem_toList.mp hc)
  · obtain ⟨t, ht, hc⟩ := List.mem_flatMap.mp hc
    have ht := Option.mem_toList.mp ht
    exact (row_target h hb hk ht).invariant (.socket hp hb hk hused ht)
      (fun _ _ ha hn => ha.follow hn) c hc
  · cases hc

/-- A run comes to the blocks that are reached. -/
theorem reached_iff : Reached w x ↔ ∃ c ∈ tops w, ∃ n, Within (callsOf w) c x n := by
  refine ⟨exists_within_of_reached h, ?_⟩
  rintro ⟨c, hc, n, hn⟩
  induction hn with
  | self =>
    obtain ⟨r, hr, hc⟩ := List.mem_flatMap.mp hc
    exact (row_root h hr).invariant (.root hr) (fun _ _ ha hn => ha.follow hn) c hc
  | call _ hcall ih =>
    obtain ⟨b, hb, k, hk, hused, hc⟩ := mem_callsOf.mp hcall
    exact reached_of_mem_slotCalls h ih hb hk hused hc

end workspace

end BlockProgram.Python
