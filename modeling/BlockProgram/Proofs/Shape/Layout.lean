import BlockProgram.Mutation.Transition
import BlockProgram.Proofs.Shape.Numbered
import Mathlib.Data.List.Nodup

/-! The layouts of one shape. A shape may repeat no socket name in any of its layouts; then any two
layouts agree on the names they share, and the sockets of units are named apart. -/
namespace BlockProgram

/-- No layout repeats a socket name. -/
def Shape.Distinct (shape : Shape) : Prop := ∀ m, ((shape.layout m).map (·.name)).Nodup

def ShapeRegistry.Distinct (registry : ShapeRegistry) : Prop :=
  ∀ shape ∈ registry.shapes, shape.Distinct

theorem ShapeRegistry.mem_of_get? {registry : ShapeRegistry} {type : String} {shape : Shape}
    (h : registry.get? type = some shape) : shape ∈ registry.shapes ∧ shape.type = type :=
  ⟨List.mem_of_find?_eq_some h, by simpa using List.find?_some h⟩

namespace RepeatSpec

variable {spec : RepeatSpec} {n i : Nat} {s : Socket}

theorem map_name_unitSockets : (spec.unitSockets i).map (·.name) = spec.unitNames i := by
  refine List.ext_getElem? fun j => ?_
  simp only [unitSockets, unitNames, List.getElem?_map, List.getElem?_mapIdx, Option.map_map]
  rfl

theorem mem_sockets : s ∈ spec.sockets n ↔
    (n = 0 ∧ ∃ l ∈ spec.emptyLabel, (SocketSpec.dummy Shape.emptySocket l).instantiate true = s) ∨
      ∃ i < n, s ∈ spec.unitSockets i := by
  unfold sockets
  by_cases h : n = 0 <;> simp [h]

/-- The names of units end in digits. -/
theorem ne_of_mem_unitNames {name other : String} (h : Unnumbered other)
    (hn : name ∈ spec.unitNames i) : name ≠ other := by
  obtain ⟨t, -, rfl⟩ := List.mem_map.mp hn
  exact h.ne_numbered

private theorem empty_of_mem_sockets (h : s ∈ spec.sockets n) : s.target = none ∧ s.structural := by
  rcases mem_sockets.mp h with ⟨_, l, _, rfl⟩ | ⟨i, _, hi⟩
  · exact ⟨rfl, rfl⟩
  · obtain ⟨j, _, rfl⟩ := List.mem_mapIdx.mp hi
    exact ⟨rfl, rfl⟩

end RepeatSpec

namespace Shape

variable {shape : Shape} {m m' : Mutation} {s s' : Socket}

theorem empty_of_mem_mutableSockets (h : s ∈ shape.mutableSockets m) :
    s.target = none ∧ s.structural := by
  unfold mutableSockets at h
  split at h
  · exact RepeatSpec.empty_of_mem_sockets h
  · rcases List.mem_append.mp h with h | h
    · obtain ⟨i, _, hi⟩ := List.mem_flatMap.mp h
      simp only [elseIfSockets, List.mem_cons, List.not_mem_nil, or_false] at hi
      rcases hi with rfl | rfl <;> exact ⟨rfl, rfl⟩
    · split at h
      · cases List.mem_singleton.mp h
        exact ⟨rfl, rfl⟩
      · simp at h
  · simp at h

/-- A layout has the fixed sockets of the shape and those of the mutation. -/
theorem mem_layout : s ∈ shape.layout m ↔
    (∃ spec ∈ shape.sockets, spec.instantiate false = s) ∨ s ∈ shape.mutableSockets m := by
  simp [layout]

theorem map_name_layout (shape : Shape) (m : Mutation) : (shape.layout m).map (·.name) =
    shape.sockets.map (·.name) ++ (shape.mutableSockets m).map (·.name) := by
  rw [layout, List.map_append, List.map_map]
  rfl

theorem map_name_items {spec : RepeatSpec} (hm : shape.mutator = .repeats spec) (n : Nat) :
    (shape.mutableSockets (.items n)).map (·.name) =
      (if n = 0 then spec.emptyLabel.toList.map fun _ => emptySocket else []) ++
        (List.range n).flatMap spec.unitNames := by
  simp only [mutableSockets, hm, RepeatSpec.sockets, List.map_append, List.map_flatMap,
    RepeatSpec.map_name_unitSockets]
  congr 1
  split
  · rw [List.map_map]
    rfl
  · rfl

theorem map_name_branches (hm : shape.mutator = .branches) (n : Nat) (hasElse : Bool) :
    (shape.mutableSockets (.branches n hasElse)).map (·.name) =
      (List.range n).flatMap (fun i => elseIfNames (i + 1)) ++
        if hasElse then [elseSocket.name] else [] := by
  simp only [mutableSockets, hm, List.map_append, List.map_flatMap]
  cases hasElse <;> rfl

theorem mem_elseIfNames {name : String} {k : Nat} :
    name ∈ elseIfNames k ↔ name = "IF" ++ toString k ∨ name = "DO" ++ toString k := by
  simp [elseIfNames]

theorem ne_of_mem_elseIfNames {name other : String} {k : Nat} (h : Unnumbered other)
    (hn : name ∈ elseIfNames k) : name ≠ other := by
  rcases mem_elseIfNames.mp hn with rfl | rfl <;> exact h.ne_numbered

theorem unnumbered_emptySocket : Unnumbered emptySocket := by decide

/-- Only the label of an empty group is called so. -/
theorem label_of_emptySocket (h : s ∈ shape.mutableSockets m) (hn : s.name = emptySocket) :
    m = .items 0 ∧ ∃ l, s = (SocketSpec.dummy emptySocket l).instantiate true := by
  cases hm : shape.mutator with
  | fixed => simp [mutableSockets, hm] at h
  | variants => simp [mutableSockets, hm] at h
  | repeats spec =>
    cases m <;> simp only [mutableSockets, hm, List.not_mem_nil] at h
    rcases RepeatSpec.mem_sockets.mp h with ⟨rfl, l, -, rfl⟩ | ⟨i, -, hi⟩
    · exact ⟨rfl, l, rfl⟩
    · have hname : s.name ∈ spec.unitNames i :=
        RepeatSpec.map_name_unitSockets ▸ List.mem_map_of_mem hi
      exact absurd hn (RepeatSpec.ne_of_mem_unitNames unnumbered_emptySocket hname)
  | branches =>
    cases m <;> simp only [mutableSockets, hm, List.not_mem_nil] at h
    rcases List.mem_append.mp h with h | h
    · obtain ⟨i, -, hi⟩ := List.mem_flatMap.mp h
      have hname : s.name ∈ elseIfNames (i + 1) := List.mem_map_of_mem hi
      exact absurd hn (ne_of_mem_elseIfNames unnumbered_emptySocket hname)
    · have helse : elseSocket.name ≠ emptySocket := by decide
      obtain rfl : s = elseSocket := by
        split at h
        · exact List.mem_singleton.mp h
        · cases h
      exact absurd hn helse

/-- The sockets of a layout are empty. -/
theorem target_of_mem_layout (h : s ∈ shape.layout m) : s.target = none := by
  rcases mem_layout.mp h with ⟨_, _, rfl⟩ | h
  · rfl
  · exact (empty_of_mem_mutableSockets h).1

def slots (shape : Shape) (m : Mutation) : List (String × SocketKind) :=
  (shape.layout m).map fun k => (k.name, k.kind)

theorem slots_repeats {spec : RepeatSpec} {n : Nat} (hm : shape.mutator = .repeats spec)
    (hs : shape.sockets = []) : shape.slots (.items n) =
      (if n = 0 then spec.emptyLabel.toList.map fun _ => (emptySocket, SocketKind.dummy) else []) ++
        (List.range n).flatMap fun i => spec.templates.map fun t => (t.name ++ toString i, t.kind) := by
  have hunit (i : Nat) : (spec.unitSockets i).map (fun k => (k.name, k.kind)) =
      spec.templates.map fun t => (t.name ++ toString i, t.kind) := by
    refine List.ext_getElem? fun j => ?_
    simp only [RepeatSpec.unitSockets, List.getElem?_map, List.getElem?_mapIdx, Option.map_map]
    rfl
  unfold slots layout mutableSockets RepeatSpec.sockets
  simp only [hm, hs, List.map_nil, List.nil_append, List.map_append, List.map_flatMap, hunit]
  congr 1
  split
  · rw [List.map_map]
    rfl
  · rfl

/-- Two mutations have a common larger one, apart from the label of an empty group. -/
theorem mutableSockets_join (h : s ∈ shape.mutableSockets m)
    (h' : s' ∈ shape.mutableSockets m') (hn : s.name = s'.name) :
    s = s' ∨ ∃ both, s ∈ shape.mutableSockets both ∧ s' ∈ shape.mutableSockets both := by
  cases hm : shape.mutator with
  | fixed => simp [mutableSockets, hm] at h
  | variants => simp [mutableSockets, hm] at h
  | repeats spec =>
    cases m <;> cases m' <;> simp only [mutableSockets, hm, List.not_mem_nil] at h h'
    rename_i n n'
    have hempty (l : String) {i : Nat} {k : Socket} (hk : k ∈ spec.unitSockets i) :
        k.name ≠ ((SocketSpec.dummy emptySocket l).instantiate true).name :=
      RepeatSpec.ne_of_mem_unitNames unnumbered_emptySocket
        (RepeatSpec.map_name_unitSockets ▸ List.mem_map_of_mem hk)
    rcases RepeatSpec.mem_sockets.mp h with ⟨_, l, hl, rfl⟩ | ⟨i, hi, hs⟩ <;>
      rcases RepeatSpec.mem_sockets.mp h' with ⟨_, l', hl', rfl⟩ | ⟨i', hi', hs'⟩
    · exact .inl (by rw [Option.mem_unique hl hl'])
    · exact absurd hn.symm (hempty l hs')
    · exact absurd hn (hempty l' hs)
    · refine .inr ⟨.items (max n n'), ?_, ?_⟩ <;> simp only [mutableSockets, hm]
      · exact RepeatSpec.mem_sockets.mpr (.inr ⟨i, by omega, hs⟩)
      · exact RepeatSpec.mem_sockets.mpr (.inr ⟨i', by omega, hs'⟩)
  | branches =>
    cases m <;> cases m' <;> simp only [mutableSockets, hm, List.not_mem_nil] at h h'
    rename_i n e n' e'
    refine .inr ⟨.branches (max n n') (e || e'), ?_, ?_⟩ <;>
      simp only [mutableSockets, hm, List.mem_append, List.mem_flatMap, List.mem_range] at h h' ⊢
    · rcases h with ⟨i, hi, hs⟩ | h
      · exact .inl ⟨i, by omega, hs⟩
      · cases e <;> simp_all
    · rcases h' with ⟨i, hi, hs⟩ | h'
      · exact .inl ⟨i, by omega, hs⟩
      · cases e' <;> simp_all

/-- Sockets of the same name are the same in every layout. -/
theorem Distinct.agree (h : shape.Distinct) (hs : s ∈ shape.layout m) (hs' : s' ∈ shape.layout m')
    (hn : s.name = s'.name) : s = s' := by
  have hboth (both : Mutation) (hs : s ∈ shape.layout both) (hs' : s' ∈ shape.layout both) :
      s = s' := List.inj_on_of_nodup_map (h both) hs hs' hn
  rcases mem_layout.mp hs with hfixed | hmut
  · exact hboth m' (mem_layout.mpr (.inl hfixed)) hs'
  · rcases mem_layout.mp hs' with hfixed' | hmut'
    · exact hboth m hs (mem_layout.mpr (.inl hfixed'))
    · rcases mutableSockets_join hmut hmut' hn with he | ⟨both, hb, hb'⟩
      · exact he
      · exact hboth both (mem_layout.mpr (.inr hb)) (mem_layout.mpr (.inr hb'))

/-- The sockets outside the mutable part are the same in every layout. -/
theorem mem_layout_of_fixed (h : s ∈ shape.layout m) (hs : s.structural = false) (m' : Mutation) :
    s ∈ shape.layout m' := by
  rcases mem_layout.mp h with hfixed | hmut
  · exact mem_layout.mpr (.inl hfixed)
  · simp [(empty_of_mem_mutableSockets hmut).2] at hs

/-- A transition is made from a mutation that the shape accepts to one of not too many units. -/
theorem transition_eq_ok {event : Mutation.Event} {diff : LayoutDiff} :
    shape.transition m event = .ok (m', diff) ↔
      shape.accepts m ∧ shape.requested m event = .ok m' ∧
        (shape.limitedUnits m').1 ≤ Mutation.maxUnits ∧ diff = .between shape m m' := by
  unfold transition
  cases shape.accepts m with
  | false => exact ⟨nofun, fun h => absurd h.1 (by simp)⟩
  | true =>
    cases shape.requested m event with
    | error e => exact ⟨nofun, fun h => nomatch h.2.1⟩
    | ok next =>
      change (if (shape.limitedUnits next).1 > Mutation.maxUnits then _ else
        Except.ok (next, LayoutDiff.between shape m next)) = .ok (m', diff) ↔ _
      split
      · rename_i hu
        constructor
        · intro h
          cases h
        · rintro ⟨-, h, hle, -⟩
          cases h
          omega
      · rename_i hu
        constructor
        · intro h
          cases h
          exact ⟨rfl, rfl, by omega, rfl⟩
        · rintro ⟨-, h, -, rfl⟩
          cases h
          rfl

/-- From a mutation of another shape every event is refused as incompatible. -/
theorem transition_of_not_accepts (h : shape.accepts m = false) (event : Mutation.Event) :
    shape.transition m event = .error (.incompatible shape.type m.token) := by
  unfold transition
  rw [h]
  rfl

end Shape

end BlockProgram
