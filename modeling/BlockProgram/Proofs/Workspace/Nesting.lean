import BlockProgram.Proofs.Workspace.Sound

/-! Nesting: how many sockets a block stands in, one within the other, and how many of them are for
statements. Following a block in its chain does not nest. -/
namespace BlockProgram.Workspace

/-- The number of sockets on the way up from a block. -/
inductive Nested (w : Workspace) : BlockId → Nat → Prop where
  | top {x : BlockId} (hp : w.parent? x = none) : Nested w x 0
  | input {x p : BlockId} {s : String} {n : Nat} (hp : w.parent? x = some (.input p s))
      (h : Nested w p n) : Nested w x (n + 1)
  | next {x p : BlockId} {n : Nat} (hp : w.parent? x = some (.next p)) (h : Nested w p n) :
      Nested w x n

/-- The block stands in the socket `s` of `p`, or in the chain of one that does. -/
inductive Encloses (w : Workspace) (p : BlockId) (s : String) : BlockId → Prop where
  | input {x : BlockId} (hp : w.parent? x = some (.input p s)) : Encloses w p s x
  | next {x q : BlockId} (hp : w.parent? x = some (.next q)) (h : Encloses w p s q) :
      Encloses w p s x

def socketKind? (w : Workspace) (p : BlockId) (s : String) : Option SocketKind :=
  ((w.find? p).bind (·.socket? s)).map (·.kind)

/-- The number of statement sockets on the way up from a block. -/
inductive Indented (w : Workspace) : BlockId → Nat → Prop where
  | top {x : BlockId} (hp : w.parent? x = none) : Indented w x 0
  | statement {x p : BlockId} {s : String} {n : Nat} (hp : w.parent? x = some (.input p s))
      (hk : w.socketKind? p s = some .statement) (h : Indented w p n) : Indented w x (n + 1)
  | value {x p : BlockId} {s : String} {n : Nat} (hp : w.parent? x = some (.input p s))
      (hk : w.socketKind? p s ≠ some .statement) (h : Indented w p n) : Indented w x n
  | next {x p : BlockId} {n : Nat} (hp : w.parent? x = some (.next p)) (h : Indented w p n) :
      Indented w x n

variable {w : Workspace} {p q x y : BlockId} {s s' : String} {n m : Nat} {l : List BlockId}

theorem Nested.unique (h : w.Nested x n) (h' : w.Nested x m) : n = m := by
  induction h generalizing m with
  | top hp => cases h' <;> simp_all
  | input hp _ ih =>
    cases h' with
    | input hp' h' =>
      cases Option.some.inj (hp.symm.trans hp')
      rw [ih h']
    | _ => simp_all
  | next hp _ ih =>
    cases h' with
    | next hp' h' =>
      cases Option.some.inj (hp.symm.trans hp')
      exact ih h'
    | _ => simp_all

theorem Indented.unique (h : w.Indented x n) (h' : w.Indented x m) : n = m := by
  induction h generalizing m with
  | top hp => cases h' <;> simp_all
  | statement hp hk _ ih =>
    cases h' with
    | statement hp' _ h' =>
      cases Option.some.inj (hp.symm.trans hp')
      rw [ih h']
    | value hp' hk' _ =>
      cases Option.some.inj (hp.symm.trans hp')
      exact (hk' hk).elim
    | _ => simp_all
  | value hp hk _ ih =>
    cases h' with
    | statement hp' hk' _ =>
      cases Option.some.inj (hp.symm.trans hp')
      exact (hk hk').elim
    | value hp' _ h' =>
      cases Option.some.inj (hp.symm.trans hp')
      exact ih h'
    | _ => simp_all
  | next hp _ ih =>
    cases h' with
    | next hp' h' =>
      cases Option.some.inj (hp.symm.trans hp')
      exact ih h'
    | _ => simp_all

namespace Encloses

theorem unique (h : w.Encloses p s x) (h' : w.Encloses q s' x) : p = q ∧ s = s' := by
  induction h with
  | input hp =>
    cases h' with
    | input hp' =>
      cases Option.some.inj (hp.symm.trans hp')
      exact ⟨rfl, rfl⟩
    | next hp' _ => simp_all
  | next hp _ ih =>
    cases h' with
    | input hp' => simp_all
    | next hp' h' =>
      cases Option.some.inj (hp.symm.trans hp')
      exact ih h'

theorem nested (h : w.Encloses p s x) (hn : w.Nested p n) : w.Nested x (n + 1) := by
  induction h with
  | input hp => exact .input hp hn
  | next hp _ ih => exact .next hp ih

private theorem exists_place (h : w.Encloses p s x) :
    ∃ place, w.parent? x = some place ∧ w.Under p place.block := by
  induction h with
  | input hp => exact ⟨_, hp, .self⟩
  | next hp _ ih =>
    obtain ⟨place, hplace, hu⟩ := ih
    exact ⟨_, hp, .step hplace hu⟩

theorem under (h : w.Encloses p s x) : w.Under p x := by
  obtain ⟨place, hp, hu⟩ := h.exists_place
  exact .step hp hu

theorem has (h : w.Encloses p s x) : w.has x := by
  obtain ⟨place, hp, -⟩ := h.exists_place
  exact has_of_parent? hp

/-- A block is not within a socket of a block beneath it. -/
theorem not_under (h : w.Encloses p s x) (ha : w.Acyclic) : ¬ w.Under x p := by
  obtain ⟨place, hp, hu⟩ := h.exists_place
  intro hx
  exact ha.not_under hp (hx.trans hu)

end Encloses

/-- A block that is not nested is enclosed by none. -/
theorem Nested.not_encloses (h : w.Nested x 0) : ¬ w.Encloses p s x := by
  intro he
  induction he with
  | input hp =>
    cases h with
    | top hp' => simp [hp] at hp'
    | next hp' _ => simp [hp] at hp'
  | next hp _ ih =>
    cases h with
    | top hp' => simp [hp] at hp'
    | next hp' h =>
      cases Option.some.inj (hp.symm.trans hp')
      exact ih h

theorem Row.encloses (hr : w.Row x l) (h : w.Linked) (hp : w.parent? x = some (.input p s)) :
    ∀ y ∈ l, w.Encloses p s y :=
  hr.invariant (.input hp) fun _ _ he hn => .next ((h.link _ _).mp hn) he

theorem Row.indented (hr : w.Row x l) (h : w.Linked) (hx : w.Indented x n) :
    ∀ y ∈ l, w.Indented y n :=
  hr.invariant hx fun _ _ hn hnext => .next ((h.link _ _).mp hnext) hn

theorem Row.nested_zero (hr : w.Row x l) (h : w.Linked) (hp : w.parent? x = none) :
    ∀ y ∈ l, w.Nested y 0 :=
  hr.invariant (.top hp) fun _ _ hn hnext => .next ((h.link _ _).mp hnext) hn

theorem Row.nodup (hr : w.Row x l) (h : w.Linked) (ha : w.Acyclic) : l.Nodup := by
  induction hr with
  | last _ => simp
  | cons hn hr ih =>
    refine List.nodup_cons.mpr ⟨fun hx => ?_, ih⟩
    exact ha.not_under ((h.link _ _).mp hn) (hr.under h _ hx)

/-- Without circles every chain goes to its end. -/
theorem Linked.row_chain_of_acyclic (h : w.Linked) (ha : w.Acyclic) (hx : w.has x) :
    w.Row x (w.chain x) := h.row_chain hx fun _ hp => ha.not_under hp

end BlockProgram.Workspace
