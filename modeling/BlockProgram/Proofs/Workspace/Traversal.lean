import BlockProgram.Proofs.Workspace.Descent
import Mathlib.Logic.Relation

/-! The walks along links as loops without a bound. Whatever the links are, each loop ends, and it ends with
what the bounded walk answers, so the bounds never cut a walk short. No walk lists a block twice. -/
namespace BlockProgram.Workspace

/-- The loop that goes along next links from a cursor until there is no next one or it is in `seen`. -/
inductive Follows (w : Workspace) : List BlockId → Option BlockId → List BlockId → Prop where
  | ended {seen : List BlockId} : Follows w seen none []
  | again {seen : List BlockId} {x : BlockId} (hx : x ∈ seen) : Follows w seen (some x) []
  | next {seen l : List BlockId} {x : BlockId} (hx : x ∉ seen)
      (hr : Follows w (x :: seen) ((w.find? x).bind (·.next)) l) : Follows w seen (some x) (x :: l)

/-- The search from the blocks `heads`, one after the other: each is listed, then what its sockets hold in
their order, then what follows it. Nothing is listed again that is in `out`, all found before. -/
inductive Searches (w : Workspace) : List BlockId → List BlockId → List BlockId → Prop where
  | done {out : List BlockId} : Searches w [] out out
  | missing {x : BlockId} {heads out found : List BlockId} (hx : w.find? x = none)
      (hr : Searches w heads out found) : Searches w (x :: heads) out found
  | again {x : BlockId} {heads out found : List BlockId} (hx : x ∈ out)
      (hr : Searches w heads out found) : Searches w (x :: heads) out found
  | enter {x : BlockId} {b : Block} {heads out inner found : List BlockId} (hb : w.find? x = some b)
      (hx : x ∉ out) (hin : Searches w (b.targets ++ b.next.toList) (out ++ [x]) inner)
      (hr : Searches w heads inner found) : Searches w (x :: heads) out found

/-- One step down: `c` is in a socket of `p` or follows it. -/
def Down (w : Workspace) (p c : BlockId) : Prop :=
  ∃ b, w.find? p = some b ∧ c ∈ b.targets ++ b.next.toList

/-- One step up: `p` is where `c` is plugged in. -/
def Up (w : Workspace) (c p : BlockId) : Prop := ∃ place, w.parent? c = some place ∧ place.block = p

/-- The steps down are the steps up, taken the other way. -/
def Paired (w : Workspace) : Prop := ∀ p c, w.Down p c ↔ w.Up c p

variable {w : Workspace} {a b c x : BlockId} {seen l l' heads heads' out inner found found' : List BlockId}
  {cursor : Option BlockId} {fuel : Nat}

theorem Follows.nodup (h : w.Follows seen cursor l) : l.Nodup ∧ ∀ x ∈ l, x ∉ seen := by
  induction h with
  | ended => simp
  | again hx => simp
  | next hx hr ih =>
    obtain ⟨hn, hseen⟩ := ih
    refine ⟨List.nodup_cons.mpr ⟨fun hmem => hseen _ hmem List.mem_cons_self, hn⟩, ?_⟩
    intro y hy
    rcases List.mem_cons.mp hy with rfl | hy
    · exact hx
    · exact fun hmem => hseen y hy (List.mem_cons_of_mem _ hmem)

/-- A walk that has seen as many blocks as there are meets one of them, or an id without a block. -/
theorem follows_chainFrom (hn : seen.Nodup) (hi : seen ⊆ w.ids)
    (hf : w.ids.length < fuel + seen.length) : w.Follows seen cursor (w.chainFrom fuel seen cursor) := by
  induction fuel generalizing seen cursor with
  | zero =>
    -- more blocks would have been seen than there are
    have := hn.length_le_of_subset hi
    omega
  | succ fuel ih =>
    cases cursor with
    | none => exact .ended
    | some x =>
      unfold chainFrom
      split
      · rename_i hx
        exact .again hx
      · rename_i hx
        apply Follows.next hx
        cases hb : w.find? x with
        | none =>
          cases fuel <;> exact .ended
        | some b =>
          have hmem : x ∈ w.ids := has_iff_mem_ids.mp (has_iff.mpr ⟨b, hb⟩)
          exact ih (List.nodup_cons.mpr ⟨hx, hn⟩) (List.cons_subset.mpr ⟨hmem, hi⟩)
            (by rw [List.length_cons]; omega)

/-- The bounded walk along a chain goes as far as the walk without a bound. -/
theorem follows_chain (w : Workspace) (a : BlockId) :
    w.Follows [] ((w.find? a).map (·.id)) (w.chain a) := by
  unfold chain
  split
  · rename_i ha
    obtain ⟨b, hb⟩ := has_iff.mp ha
    rw [hb, Option.map_some, (mem_of_find? hb).2]
    exact follows_chainFrom List.nodup_nil (List.nil_subset _) (by simp [ids])
  · rename_i ha
    have hb : w.find? a = none := by simpa [has] using ha
    rw [hb]
    exact .ended

namespace Searches

theorem append (h : w.Searches heads out inner) (h' : w.Searches heads' inner found) :
    w.Searches (heads ++ heads') out found := by
  induction h with
  | done => exact h'
  | missing hx _ ih => exact .missing hx (ih h')
  | again hx _ ih => exact .again hx (ih h')
  | enter hb hx hin _ _ ih => exact .enter hb hx hin (ih h')

/-- A search has one result. -/
theorem unique (h : w.Searches heads out found) (h' : w.Searches heads out found') : found = found' := by
  induction h generalizing found' with
  | done =>
    cases h'
    rfl
  | missing hx _ ih =>
    cases h' with
    | missing _ hr => exact ih hr
    | again _ hr => exact ih hr
    | enter hb => simp [hx] at hb
  | again hx _ ih =>
    cases h' with
    | missing _ hr => exact ih hr
    | again _ hr => exact ih hr
    | enter _ hnot => exact (hnot hx).elim
  | enter hb hx _ _ ihin ih =>
    cases h' with
    | missing hnone => simp [hb] at hnone
    | again hmem => exact (hx hmem).elim
    | enter hb' _ hin hr =>
      obtain rfl := Option.some.inj (hb.symm.trans hb')
      obtain rfl := ihin hin
      exact ih hr

theorem subset (h : w.Searches heads out found) : out ⊆ found := by
  induction h with
  | done => exact List.Subset.refl _
  | missing _ _ ih => exact ih
  | again _ _ ih => exact ih
  | enter _ _ _ _ ihin ih => exact fun y hy => ih (ihin (List.mem_append_left _ hy))

theorem nodup (h : w.Searches heads out found) (hn : out.Nodup) : found.Nodup := by
  induction h with
  | done => exact hn
  | missing _ _ ih => exact ih hn
  | again _ _ ih => exact ih hn
  | enter _ hx _ _ ihin ih => exact ih (ihin (by simpa using List.Nodup.concat hx hn))

theorem subset_ids (h : w.Searches heads out found) (hi : out ⊆ w.ids) : found ⊆ w.ids := by
  induction h with
  | done => exact hi
  | missing _ _ ih => exact ih hi
  | again _ _ ih => exact ih hi
  | enter hb _ _ _ ihin ih =>
    have hmem := has_iff_mem_ids.mp (has_iff.mpr ⟨_, hb⟩)
    exact ih (ihin (List.append_subset.mpr ⟨hi, by simpa using hmem⟩))

end Searches

private theorem searches_foldl {search : BlockId → List BlockId → List BlockId}
    (hs : ∀ s out', out ⊆ out' → out'.Nodup → out' ⊆ w.ids → w.Searches [s] out' (search s out'))
    (hn : out.Nodup) (hi : out ⊆ w.ids) :
    w.Searches heads out (heads.foldl (fun out s => search s out) out) := by
  induction heads generalizing out with
  | nil => exact .done
  | cons s heads ih =>
    have hfirst := hs s out (List.Subset.refl _) hn hi
    apply Searches.append hfirst
    apply ih (fun s' out' ho => hs s' out' (List.Subset.trans hfirst.subset ho))
    · exact hfirst.nodup hn
    · exact hfirst.subset_ids hi

/-- The bound of the search exceeds the number of blocks that it has not found yet. -/
theorem searches_collect (hn : out.Nodup) (hi : out ⊆ w.ids)
    (hf : w.ids.length < fuel + out.length) : w.Searches [a] out (w.collect fuel a out) := by
  induction fuel generalizing a out with
  | zero =>
    have := hn.length_le_of_subset hi
    omega
  | succ fuel ih =>
    unfold collect
    split
    · rename_i hb
      exact .missing hb .done
    · rename_i b hb
      split
      · rename_i ha
        exact .again ha .done
      · rename_i ha
        have hmem : a ∈ w.ids := has_iff_mem_ids.mp (has_iff.mpr ⟨b, hb⟩)
        have hn' : (out ++ [a]).Nodup := by simpa using List.Nodup.concat ha hn
        refine .enter hb ha (searches_foldl ?_ hn' ?_) .done
        -- what has been found only grows, so the bound suffices for every head
        · intro s out' ho hn'' hi'
          apply ih hn'' hi'
          have := hn'.length_le_of_subset ho
          simp only [List.length_append, List.length_singleton] at this
          omega
        · exact List.append_subset.mpr ⟨hi, by simpa using hmem⟩

/-- The bounded search for what is beneath a block finds what the search without a bound finds. -/
theorem searches_descendants (w : Workspace) (a : BlockId) : w.Searches [a] [] (w.descendants a) :=
  searches_collect List.nodup_nil (List.nil_subset _) (by simp [ids])

/-- What a search finds is there and is reached from the blocks where it starts. -/
theorem Searches.reached (h : w.Searches heads out found) :
    ∀ x ∈ found, x ∈ out ∨ w.has x ∧ ∃ s ∈ heads, Relation.ReflTransGen w.Down s x := by
  induction h with
  | done => exact fun x hx => .inl hx
  | missing _ _ ih =>
    intro y hy
    exact (ih y hy).imp_right fun ⟨hy, s, hs, hr⟩ => ⟨hy, s, List.mem_cons_of_mem _ hs, hr⟩
  | again _ _ ih =>
    intro y hy
    exact (ih y hy).imp_right fun ⟨hy, s, hs, hr⟩ => ⟨hy, s, List.mem_cons_of_mem _ hs, hr⟩
  | @enter x b heads out inner found hb hx _ _ ihin ih =>
    intro y hy
    rcases ih y hy with hy | ⟨hy, s, hs, hr⟩
    · rcases ihin y hy with hy | ⟨hy, s, hs, hr⟩
      · rcases List.mem_append.mp hy with hy | hy
        · exact .inl hy
        · obtain rfl := List.mem_singleton.mp hy
          exact .inr ⟨has_iff.mpr ⟨b, hb⟩, _, List.mem_cons_self, .refl⟩
      · exact .inr ⟨hy, x, List.mem_cons_self, .head ⟨b, hb, hs⟩ hr⟩
    · exact .inr ⟨hy, s, List.mem_cons_of_mem _ hs, hr⟩

private theorem Searches.mem_of_mem_heads (h : w.Searches heads out found) (hx : x ∈ heads) (hhas : w.has x) :
    x ∈ found := by
  induction h with
  | done => cases hx
  | missing hnone _ ih =>
    rcases List.mem_cons.mp hx with rfl | hx
    · simp [has, hnone] at hhas
    · exact ih hx
  | again hmem hr ih =>
    rcases List.mem_cons.mp hx with rfl | hx
    · exact hr.subset hmem
    · exact ih hx
  | enter _ _ hin hr _ ih =>
    rcases List.mem_cons.mp hx with rfl | hx
    · exact hr.subset (hin.subset (by simp))
    · exact ih hx

/-- All that is one step down from what a search has found new is found as well. -/
theorem Searches.closed (h : w.Searches heads out found) :
    ∀ x ∈ found, x ∈ out ∨ ∀ c, w.Down x c → w.has c → c ∈ found := by
  induction h with
  | done => exact fun x hx => .inl hx
  | missing _ _ ih => exact ih
  | again _ _ ih => exact ih
  | @enter x b heads out inner found hb hx hin hr ihin ih =>
    intro y hy
    rcases ih y hy with hy | hy
    · rcases ihin y hy with hy | hy
      · rcases List.mem_append.mp hy with hy | hy
        · exact .inl hy
        · obtain rfl := List.mem_singleton.mp hy
          refine .inr fun c ⟨b', hb', hc⟩ hhas => ?_
          obtain rfl := Option.some.inj (hb.symm.trans hb')
          exact hr.subset (hin.mem_of_mem_heads hc hhas)
      · exact .inr fun c hc hhas => hr.subset (hy c hc hhas)
    · exact .inr hy

/-- The descendants of a block are the blocks that links lead down to from it. -/
theorem mem_descendants (w : Workspace) (a x : BlockId) :
    x ∈ w.descendants a ↔ w.has x ∧ Relation.ReflTransGen w.Down a x := by
  have hs := w.searches_descendants a
  constructor
  · intro hx
    simpa using hs.reached x hx
  · rintro ⟨hx, hr⟩
    induction hr with
    | refl => exact hs.mem_of_mem_heads List.mem_cons_self hx
    | @tail p x _ hdown ih =>
      obtain ⟨b, hb, -⟩ := id hdown
      rcases hs.closed p (ih (has_iff.mpr ⟨b, hb⟩)) with hnil | hp
      · cases hnil
      · exact hp x hdown hx

/-- Whether a block has been found before matters only where a search comes to it. -/
theorem Searches.elsewhere (h : w.Searches heads out found) (out' : List BlockId)
    (hsame : ∀ s ∈ heads, ∀ x, Relation.ReflTransGen w.Down s x → (x ∈ out' ↔ x ∈ out)) :
    ∃ new, found = out ++ new ∧ w.Searches heads out' (out' ++ new) := by
  induction h generalizing out' with
  | done => exact ⟨[], by simp, by simpa using Searches.done⟩
  | missing hx _ ih =>
    obtain ⟨new, hnew, hr⟩ := ih out' fun s hs => hsame s (List.mem_cons_of_mem _ hs)
    exact ⟨new, hnew, .missing hx hr⟩
  | again hx _ ih =>
    obtain ⟨new, hnew, hr⟩ := ih out' fun s hs => hsame s (List.mem_cons_of_mem _ hs)
    exact ⟨new, hnew, .again ((hsame _ List.mem_cons_self _ .refl).mpr hx) hr⟩
  | @enter x b heads out inner found hb hx _ _ ihin ih =>
    obtain ⟨new, rfl, hin⟩ := ihin (out' ++ [x]) fun s hs y hy => by
      simp only [List.mem_append, hsame x List.mem_cons_self y (.head ⟨b, hb, hs⟩ hy)]
    obtain ⟨new', rfl, hr⟩ := ih (out' ++ [x] ++ new) fun s hs y hy => by
      simp only [List.mem_append, hsame s (List.mem_cons_of_mem _ hs) y hy]
    refine ⟨[x] ++ new ++ new', by simp, .enter hb ?_ hin (by simpa using hr)⟩
    rwa [hsame x List.mem_cons_self x .refl]

theorem reflTransGen_up : Relation.ReflTransGen w.Up x a ↔ w.Under a x := by
  constructor
  · intro h
    induction h using Relation.ReflTransGen.head_induction_on with
    | refl => exact .self
    | head hup _ ih =>
      obtain ⟨place, hp, rfl⟩ := hup
      exact .step hp ih
  · intro h
    induction h with
    | self => exact .refl
    | step hp _ ih => exact .head ⟨_, hp, rfl⟩ ih

/-- The ancestors of a block are met by going up one step or more. -/
theorem isAncestor_iff_transGen : w.isAncestor a x ↔ Relation.TransGen w.Up x a := by
  rw [isAncestor_iff, Relation.TransGen.head'_iff]
  constructor
  · rintro ⟨place, hp, hu⟩
    exact ⟨place.block, ⟨place, hp, rfl⟩, reflTransGen_up.mpr hu⟩
  · rintro ⟨_, ⟨place, hp, rfl⟩, hr⟩
    exact ⟨place, hp, reflTransGen_up.mp hr⟩

/-- What is some steps down from a block is beneath it. -/
theorem Paired.reflTransGen_down (h : w.Paired) :
    Relation.ReflTransGen w.Down a x ↔ w.Under a x := by
  have hdown : w.Down = Function.swap w.Up := funext fun p => funext fun c => propext (h p c)
  rw [hdown, Relation.reflTransGen_swap, reflTransGen_up]

/-- Where every link can be gone both ways, the descendants of a block are all the blocks beneath it. -/
theorem Paired.mem_descendants (h : w.Paired) (ha : w.has a) : x ∈ w.descendants a ↔ w.Under a x := by
  rw [Workspace.mem_descendants, h.reflTransGen_down]
  exact and_iff_right_of_imp fun hu => hu.has_below ha

end BlockProgram.Workspace
