import BlockProgram.Proofs.Workspace.Traversal

/-! The bounded walks along links reach everything they are meant to reach: the last block of a chain,
and all that is beneath a block. Deleting what is beneath a free block leaves no link to it. -/
namespace BlockProgram.Workspace

variable {w : Workspace} {a b c x id : BlockId} {place : Attachment}

/-- The list starts at `x` and goes along next links to a block that is not followed. -/
inductive Row (w : Workspace) : BlockId → List BlockId → Prop where
  | last {x : BlockId} (hn : w.occupant? (.next x) = none) : Row w x [x]
  | cons {x y : BlockId} {l : List BlockId} (hn : w.occupant? (.next x) = some y)
      (hr : Row w y l) : Row w x (x :: l)

namespace Row

variable {l l' : List BlockId}

theorem head_mem (hr : w.Row x l) : x ∈ l := by
  cases hr <;> simp

/-- There is one chain that starts at a block. -/
theorem unique (hr : w.Row x l) (hr' : w.Row x l') : l = l' := by
  induction hr generalizing l' with
  | last hn =>
    cases hr' with
    | last _ => rfl
    | cons hn' _ => simp [hn] at hn'
  | cons hn _ ih =>
    cases hr' with
    | last hn' => simp [hn] at hn'
    | cons hn' hr' =>
      cases Option.some.inj (hn.symm.trans hn')
      rw [ih hr']

/-- All that follows a block of the list is in it. -/
theorem next_mem (hr : w.Row x l) (ha : a ∈ l) (hn : w.occupant? (.next a) = some b) : b ∈ l := by
  induction hr with
  | last hlast =>
    rw [List.mem_singleton.mp ha, hlast] at hn
    cases hn
  | cons hnext hr ih =>
    rcases List.mem_cons.mp ha with rfl | ha
    · rw [hnext] at hn
      cases hn
      exact List.mem_cons_of_mem _ hr.head_mem
    · exact List.mem_cons_of_mem _ (ih ha)

/-- What holds of the first block and is passed on along next links holds of all. -/
theorem invariant {P : BlockId → Prop} (hr : w.Row x l) (hx : P x)
    (hP : ∀ a b, P a → w.occupant? (.next a) = some b → P b) : ∀ a ∈ l, P a := by
  induction hr with
  | last _ => simpa using hx
  | cons hn _ ih =>
    intro a ha
    rcases List.mem_cons.mp ha with rfl | ha
    · exact hx
    · exact ih (hP _ _ hx hn) a ha

theorem under (hr : w.Row x l) (h : w.Linked) : ∀ a ∈ l, w.Under x a :=
  hr.invariant .self fun _ _ hu hn => .step ((h.link _ _).mp hn) hu

theorem getLast? (hr : w.Row x l) :
    ∃ last ∈ l, l.getLast? = some last ∧ w.occupant? (.next last) = none := by
  induction hr with
  | last hn => exact ⟨_, by simp, rfl, hn⟩
  | cons _ hr ih =>
    obtain ⟨last, hmem, he, hn⟩ := ih
    refine ⟨last, List.mem_cons_of_mem _ hmem, ?_, hn⟩
    rw [List.getLast?_cons, he]
    rfl

end Row

/-- The blocks passed on the way from `head` along next links, the last one first. -/
private inductive Trail (w : Workspace) (head : BlockId) : List BlockId → BlockId → Prop where
  | start : Trail w head [] head
  | follow {seen : List BlockId} {y x : BlockId} (ht : Trail w head seen y)
      (hn : w.occupant? (.next y) = some x) : Trail w head (y :: seen) x

namespace Trail

variable {head : BlockId} {seen : List BlockId}

private theorem under (h : w.Linked) (ht : w.Trail head seen x) : w.Under head x := by
  induction ht with
  | start => exact .self
  | follow _ hn ih => exact .step ((h.link _ _).mp hn) ih

private theorem eq_head_or_follows (ht : w.Trail head seen x) :
    ∀ z ∈ x :: seen, z = head ∨ ∃ y ∈ seen, w.occupant? (.next y) = some z := by
  induction ht with
  | start => simp
  | @follow seen y x _ hn ih =>
    intro z hz
    rcases List.mem_cons.mp hz with rfl | hz
    · exact .inr ⟨y, by simp, hn⟩
    · exact (ih z hz).imp_right fun ⟨y', hy', hn'⟩ => ⟨y', List.mem_cons_of_mem _ hy', hn'⟩

private theorem nodup (h : w.Linked)
    (hh : ∀ p, w.parent? head = some (.next p) → ¬ w.Under head p) (ht : w.Trail head seen x) :
    (x :: seen).Nodup := by
  induction ht with
  | start => simp
  | @follow seen y x ht hn ih =>
    refine List.nodup_cons.mpr ⟨fun hx => ?_, ih⟩
    have hp := (h.link _ _).mp hn
    rcases ht.eq_head_or_follows x hx with rfl | ⟨z, hz, hn'⟩
    · exact hh y hp (ht.under h)
    · cases Option.some.inj (((h.link _ _).mp hn').symm.trans hp)
      exact (List.nodup_cons.mp ih).1 hz

private theorem row (h : w.Linked) (hh : ∀ p, w.parent? head = some (.next p) → ¬ w.Under head p)
    {l : List BlockId} (ht : w.Trail head seen x) (hf : w.Follows seen (some x) l) : w.Row x l := by
  induction l generalizing seen x with
  | nil =>
    cases hf with
    | again hx => exact ((List.nodup_cons.mp (ht.nodup h hh)).1 hx).elim
  | cons y l ih =>
    cases hf with
    | next _ hr =>
      cases ho : w.occupant? (.next y) with
      | none =>
        rw [show (w.find? y).bind (·.next) = none from ho] at hr
        cases hr
        exact .last ho
      | some z =>
        rw [show (w.find? y).bind (·.next) = some z from ho] at hr
        exact .cons ho (ih (.follow ht ho) hr)

end Trail

/-- A chain goes to its end, unless its head follows a block of the chain. -/
theorem Linked.row_chain {head : BlockId} (h : w.Linked) (hhas : w.has head)
    (hh : ∀ p, w.parent? head = some (.next p) → ¬ w.Under head p) :
    w.Row head (w.chain head) := by
  obtain ⟨b, hb⟩ := has_iff.mp hhas
  have hf := w.follows_chain head
  rw [hb, Option.map_some, (mem_of_find? hb).2] at hf
  exact Trail.row h hh .start hf

/-- The last block of a chain is beneath its head and is not followed, unless the head itself follows
a block of the chain. -/
theorem Linked.lastInChain {head : BlockId} (h : w.Linked) (hhas : w.has head)
    (hh : ∀ p, w.parent? head = some (.next p) → ¬ w.Under head p) :
    w.has (w.lastInChain head) ∧ w.Under head (w.lastInChain head) ∧
      w.occupant? (.next (w.lastInChain head)) = none := by
  have hr := h.row_chain hhas hh
  obtain ⟨last, hmem, he, hfree⟩ := hr.getLast?
  have hl : w.lastInChain head = last := by
    simp [Workspace.lastInChain, List.getLastD_eq_getLast?, he]
  have hu := hr.under h last hmem
  rw [hl]
  exact ⟨hu.has_below hhas, hu, hfree⟩

theorem Linked.mem_children (h : w.Linked) {p : BlockId} {b : Block} (hb : w.find? p = some b) :
    c ∈ b.targets ++ b.next.toList ↔ ∃ place, w.parent? c = some place ∧ place.block = p := by
  have htarget : c ∈ b.targets ↔ ∃ s, w.occupant? (.input p s) = some c := by
    simp only [occupant?, hb, Option.bind_some, Block.targets, List.mem_filterMap]
    constructor
    · rintro ⟨k, hk, ht⟩
      exact ⟨k.name, by simp [Block.target?, Block.socket?_of_mem (h.socket_names hb) hk, ht]⟩
    · rintro ⟨s, ht⟩
      obtain ⟨k, hk, ht⟩ := Option.bind_eq_some_iff.mp ht
      exact ⟨k, List.mem_of_find?_eq_some hk, ht⟩
  have hnext : c ∈ b.next.toList ↔ w.occupant? (.next p) = some c := by
    simp [occupant?, hb]
  rw [List.mem_append, htarget, hnext]
  constructor
  · rintro (⟨s, hs⟩ | hn)
    · exact ⟨.input p s, (h.link _ _).mp hs, rfl⟩
    · exact ⟨.next p, (h.link _ _).mp hn, rfl⟩
  · rintro ⟨place, hp, rfl⟩
    cases place with
    | input p s => exact .inl ⟨s, (h.link _ _).mpr hp⟩
    | next p => exact .inr ((h.link _ _).mpr hp)

/-- Links that agree at both ends can be followed both ways. -/
theorem Linked.paired (h : w.Linked) : w.Paired := by
  intro p c
  constructor
  · rintro ⟨b, hb, hc⟩
    exact (h.mem_children hb).mp hc
  · rintro ⟨place, hp, rfl⟩
    obtain ⟨b, hb⟩ := has_iff.mp (h.has_block hp)
    exact ⟨b, hb, (h.mem_children hb).mpr ⟨place, hp, rfl⟩⟩

/-- The descendants of a block are all the blocks beneath it. -/
theorem Linked.mem_descendants (h : w.Linked) (hid : w.has id) :
    x ∈ w.descendants id ↔ w.Under id x := h.paired.mem_descendants hid

section withoutSubtree

@[simp] theorem shapes_withoutSubtree : (w.withoutSubtree id).shapes = w.shapes := rfl

theorem ids_withoutSubtree :
    (w.withoutSubtree id).ids = w.ids.filter fun x => x ∉ w.descendants id := by
  simp [ids, withoutSubtree, List.filter_map, Function.comp_def]

private theorem find?_withoutSubtree : (w.withoutSubtree id).find? x =
    if x ∈ w.descendants id then none else w.find? x := by
  unfold withoutSubtree find?
  simp only [List.find?_filter]
  split
  · rename_i hx
    refine List.find?_eq_none.mpr fun b _ => ?_
    simpa using fun hb (he : b.id = x) => hb (he ▸ hx)
  · rename_i hx
    congr 1
    funext b
    by_cases he : b.id = x <;> simp [he, hx]

theorem bare?_withoutSubtree : (w.withoutSubtree id).bare? x =
    if x ∈ w.descendants id then none else w.bare? x := by
  simp only [bare?, find?_withoutSubtree]
  split <;> rfl

theorem parent?_withoutSubtree : (w.withoutSubtree id).parent? x =
    if x ∈ w.descendants id then none else w.parent? x := by
  simp only [parent?, find?_withoutSubtree]
  split <;> rfl

/-- A block is left without a subtree exactly if it is none of the descendants. -/
theorem has_withoutSubtree :
    (w.withoutSubtree id).has x ↔ w.has x ∧ x ∉ w.descendants id := by
  simp only [has, find?_withoutSubtree]
  split <;> simp_all

theorem occupant?_withoutSubtree : (w.withoutSubtree id).occupant? place =
    if place.block ∈ w.descendants id then none else w.occupant? place := by
  cases place with
  | input p s => by_cases h : p ∈ w.descendants id <;>
      simp [occupant?, find?_withoutSubtree, Attachment.block, h]
  | next p => by_cases h : p ∈ w.descendants id <;>
      simp [occupant?, find?_withoutSubtree, Attachment.block, h]

/-- A block that is free, or plugged in beneath itself, is deleted with all that is beneath it. -/
theorem Linked.withoutSubtree (h : w.Linked) (hid : w.has id)
    (hup : ∀ place, w.parent? id = some place → w.Under id place.block) :
    (w.withoutSubtree id).Linked where
  nodup := by
    rw [ids_withoutSubtree]
    exact h.nodup.filter _
  names x b hb := by
    rw [bare?_withoutSubtree] at hb
    split at hb
    · simp at hb
    · exact h.names x b hb
  link place c := by
    rw [occupant?_withoutSubtree, parent?_withoutSubtree]
    have hends (hp : w.parent? c = some place) :
        place.block ∈ w.descendants id ↔ c ∈ w.descendants id := by
      rw [h.mem_descendants hid, h.mem_descendants hid]
      refine ⟨.step hp, fun hu => ?_⟩
      cases hu with
      | self => exact hup place hp
      | step hp' hu' => exact Option.some.inj (hp.symm.trans hp') ▸ hu'
    have hl := h.link place c
    constructor
    · intro ho
      split at ho
      · simp at ho
      · rename_i hb
        rw [if_neg (fun hc => hb ((hends (hl.mp ho)).mpr hc))]
        exact hl.mp ho
    · intro hp
      split at hp
      · simp at hp
      · rename_i hc
        rw [if_neg (fun hb => hc ((hends hp).mp hb))]
        exact hl.mpr hp

end withoutSubtree

end BlockProgram.Workspace
