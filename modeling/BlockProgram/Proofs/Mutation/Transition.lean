import BlockProgram.Proofs.Shape.Orderly
import BlockProgram.Proofs.Shape.Declared
import Mathlib.Data.List.Flatten

/-! Transitions between mutations. A transition is made for every event that the shape supports within the
limits of its units, from any mutation of the shape to another one, and tells the sockets of the two layouts
apart. -/
namespace BlockProgram

/-- The mutation that an event makes of another one. The units of a composition count in any order. -/
def Mutation.after (m : Mutation) : Event → Mutation
  | .setCount n => match m with
    | .branches _ hasElse => .branches n hasElse
    | _ => .items n
  | .setVariant name => .variant name
  | .compose kinds => match m with
    | .branches _ _ => .branches (kinds.count Shape.elseIfUnit) (decide (Shape.elseUnit ∈ kinds))
    | _ => .items kinds.length

/-- Two layouts are told apart by their names: what only the first one has, what both have and what only the
second one has. The common names stand in the same order in both. -/
structure LayoutDiff.Compares (diff : LayoutDiff) (before after : List String) : Prop where
  old : (diff.removed ++ diff.kept).Perm before
  new : (diff.kept ++ diff.added).Perm after
  apart : (diff.removed ++ diff.kept ++ diff.added).Nodup
  removed : diff.removed.Sublist before
  kept : diff.kept.Sublist before ∧ diff.kept.Sublist after
  added : diff.added.Sublist after

namespace Shape

variable {shape : Shape} {m m' : Mutation} {event : Mutation.Event} {diff : LayoutDiff}

/-- The events that a shape has, with no more units than a block may have. -/
def Supports (shape : Shape) : Mutation.Event → Prop
  | .setCount n => match shape.mutator with
    | .repeats _ => n ≤ Mutation.maxUnits
    | .branches => n ≤ Mutation.maxUnits
    | _ => False
  | .setVariant name => match shape.mutator with
    | .variants _ list => ∃ v ∈ list, v.name = name
    | _ => False
  | .compose kinds => match shape.mutator with
    | .repeats spec =>
      (∀ kind ∈ kinds, kind = spec.placeholder) ∧ kinds.length ≤ Mutation.maxUnits
    | .branches => (∀ kind ∈ kinds, kind = elseIfUnit ∨ kind = elseUnit) ∧
        kinds.count elseUnit ≤ 1 ∧ kinds.count elseIfUnit ≤ Mutation.maxUnits
    | _ => False

/-- A mutation is of the form that its shape asks for. -/
theorem form_of_accepts (ha : shape.accepts m) :
    (shape.mutator = .fixed ∧ m = .fixed) ∨
      (∃ spec n, shape.mutator = .repeats spec ∧ m = .items n) ∨
      (∃ n hasElse, shape.mutator = .branches ∧ m = .branches n hasElse) ∨
      ∃ field list name, shape.mutator = .variants field list ∧ m = .variant name := by
  unfold accepts at ha
  split at ha <;> simp_all

private theorem requested_setCount_iff (ha : shape.accepts m) (n : Nat) :
    (shape.requested m (.setCount n) = .ok m' ∧ (shape.limitedUnits m').1 ≤ Mutation.maxUnits) ↔
      shape.Supports (.setCount n) ∧ m' = m.after (.setCount n) := by
  obtain ⟨hmut, rfl⟩ | ⟨spec, k, hmut, rfl⟩ | ⟨k, e, hmut, rfl⟩ | ⟨field, list, name, hmut, rfl⟩ :=
    form_of_accepts ha <;> simp only [requested, Supports, Mutation.after, hmut]
  · simp
  · rw [Except.ok.injEq, eq_comm, and_comm]
    refine and_congr_left fun hm => ?_
    simp [hm, limitedUnits, hmut]
  · rw [Except.ok.injEq, eq_comm, and_comm]
    refine and_congr_left fun hm => ?_
    simp [hm, limitedUnits, hmut]
  · simp

private theorem requested_setVariant_iff (ha : shape.accepts m) (name : String) :
    (shape.requested m (.setVariant name) = .ok m' ∧
        (shape.limitedUnits m').1 ≤ Mutation.maxUnits) ↔
      shape.Supports (.setVariant name) ∧ m' = m.after (.setVariant name) := by
  obtain ⟨hmut, rfl⟩ | ⟨spec, k, hmut, rfl⟩ | ⟨k, e, hmut, rfl⟩ | ⟨field, list, name', hmut, rfl⟩ :=
    form_of_accepts ha <;> simp only [requested, Supports, Mutation.after, hmut]
  · simp
  · simp
  · simp
  · constructor
    · rintro ⟨h, -⟩
      split at h
      · rename_i hname
        cases h
        exact ⟨List.mem_map.mp hname, rfl⟩
      · cases h
    · rintro ⟨h, rfl⟩
      rw [if_pos (show name ∈ variantNames list from List.mem_map.mpr h)]
      simp [limitedUnits, hmut]

private theorem requested_compose_iff (ha : shape.accepts m) (kinds : List String) :
    (shape.requested m (.compose kinds) = .ok m' ∧
        (shape.limitedUnits m').1 ≤ Mutation.maxUnits) ↔
      shape.Supports (.compose kinds) ∧ m' = m.after (.compose kinds) := by
  rw [show shape.requested m (.compose kinds) = shape.ofUnits kinds from rfl, ofUnits_eq_ok]
  obtain ⟨hmut, rfl⟩ | ⟨spec, k, hmut, rfl⟩ | ⟨k, e, hmut, rfl⟩ | ⟨field, list, name, hmut, rfl⟩ :=
    form_of_accepts ha <;> simp only [Supports, Mutation.after, hmut]
  · simp
  · constructor
    · rintro ⟨⟨hall, rfl⟩, h⟩
      exact ⟨⟨hall, by simpa [limitedUnits, hmut] using h⟩, rfl⟩
    · rintro ⟨⟨hall, h⟩, rfl⟩
      exact ⟨⟨hall, rfl⟩, by simpa [limitedUnits, hmut] using h⟩
  · constructor
    · rintro ⟨⟨hall, helse, rfl⟩, h⟩
      exact ⟨⟨hall, helse, by simpa [limitedUnits, hmut] using h⟩, rfl⟩
    · rintro ⟨⟨hall, helse, h⟩, rfl⟩
      exact ⟨⟨hall, helse, rfl⟩, by simpa [limitedUnits, hmut] using h⟩
  · simp

/-- What an event asks for is within the limits exactly where the shape supports the event. -/
theorem requested_iff (ha : shape.accepts m) :
    (shape.requested m event = .ok m' ∧ (shape.limitedUnits m').1 ≤ Mutation.maxUnits) ↔
      shape.Supports event ∧ m' = m.after event := by
  cases event with
  | setCount n => exact requested_setCount_iff ha n
  | setVariant name => exact requested_setVariant_iff ha name
  | compose kinds => exact requested_compose_iff ha kinds

/-- A transition is made exactly from what the shape accepts, by what it supports. -/
theorem transition_iff : shape.transition m event = .ok (m', diff) ↔
    shape.accepts m ∧ shape.Supports event ∧ m' = m.after event ∧
      diff = .between shape m (m.after event) := by
  rw [transition_eq_ok]
  constructor
  · rintro ⟨ha, hr, hfew, rfl⟩
    obtain ⟨hs, rfl⟩ := (requested_iff ha).mp ⟨hr, hfew⟩
    exact ⟨ha, hs, rfl, rfl⟩
  · rintro ⟨ha, hs, rfl, rfl⟩
    obtain ⟨hr, hfew⟩ := (requested_iff ha).mpr ⟨hs, rfl⟩
    exact ⟨ha, hr, hfew, rfl⟩

/-- Whether units are supported, and what they lead to, does not depend on their order. -/
theorem supports_compose_perm (shape : Shape) (m : Mutation) {kinds kinds' : List String}
    (hp : kinds.Perm kinds') :
    (shape.Supports (.compose kinds) ↔ shape.Supports (.compose kinds')) ∧
      m.after (.compose kinds) = m.after (.compose kinds') := by
  unfold Supports Mutation.after
  simp only [hp.mem_iff, hp.length_eq, hp.count_eq, and_self]

/-- The label of an empty group has no name of a unit, so both can stand together. -/
theorem Distinct.nodup_items {spec : RepeatSpec} (h : shape.Distinct)
    (hmut : shape.mutator = .repeats spec) (n : Nat) : (shape.sockets.map (·.name) ++
      ((spec.emptyLabel.toList.map fun _ => emptySocket) ++
        (List.range n).flatMap spec.unitNames)).Nodup := by
  have hempty := h (.items 0)
  have hunits := h (.items n)
  rw [map_name_layout, map_name_items hmut] at hempty hunits
  simp only [if_true, List.range_zero, List.flatMap_nil, List.append_nil] at hempty
  rw [← List.append_assoc]
  rw [← List.append_assoc] at hunits
  refine hempty.append hunits.of_append_right fun name hz hu => ?_
  rcases List.mem_append.mp hz with hf | hl
  · exact List.disjoint_of_nodup_append hunits (List.mem_append_left _ hf) hu
  · obtain ⟨i, -, hi⟩ := List.mem_flatMap.mp hu
    obtain ⟨_, -, he⟩ := List.mem_map.mp hl
    exact RepeatSpec.ne_of_mem_unitNames unnumbered_emptySocket hi he.symm

/-- The sockets of two mutations stand in one order, in which no name is repeated. -/
theorem Distinct.exists_common (h : shape.Distinct) (ha : shape.accepts m)
    (ha' : shape.accepts m') : ∃ all : List String, all.Nodup ∧
      ((shape.layout m).map (·.name)).Sublist all ∧
      ((shape.layout m').map (·.name)).Sublist all := by
  have hform := form_of_accepts ha'
  obtain ⟨hmut, rfl⟩ | ⟨spec, n, hmut, rfl⟩ | ⟨n, e, hmut, rfl⟩ | ⟨field, list, name, hmut, rfl⟩ :=
    form_of_accepts ha <;> simp only [hmut, reduceCtorEq, false_and, exists_false, or_false, false_or,
      true_and, Mutator.repeats.injEq, Mutator.variants.injEq] at hform
  · obtain rfl := hform
    exact ⟨_, h .fixed, .refl _, .refl _⟩
  · obtain ⟨_, n', rfl, rfl⟩ := hform
    refine ⟨_, h.nodup_items hmut (max n n'), ?_, ?_⟩ <;> rw [map_name_layout, map_name_items hmut] <;>
      refine (List.Sublist.refl _).append (List.Sublist.append ?_ ?_)
    · split <;> simp
    · exact (List.range_sublist.mpr (by omega)).flatMap _
    · split <;> simp
    · exact (List.range_sublist.mpr (by omega)).flatMap _
  · obtain ⟨n', e', rfl⟩ := hform
    refine ⟨_, h (.branches (max n n') (e || e')), ?_, ?_⟩ <;>
      simp only [map_name_layout, map_name_branches hmut] <;>
      refine (List.Sublist.refl _).append (List.Sublist.append ?_ ?_)
    · exact (List.range_sublist.mpr (by omega)).flatMap _
    · cases e <;> simp
    · exact (List.range_sublist.mpr (by omega)).flatMap _
    · cases e' <;> simp
  · obtain ⟨_, _, name', ⟨rfl, rfl⟩, rfl⟩ := hform
    have hsame (v : String) : (shape.layout (.variant v)) = shape.layout .fixed := by
      simp [layout, mutableSockets, hmut]
    exact ⟨_, h .fixed, by rw [hsame], by rw [hsame]⟩

end Shape

/-- A sublist of a list without repetitions is told by its members. -/
theorem filter_mem_of_sublist {some all : List String} (hs : some.Sublist all)
    (hall : all.Nodup) : all.filter (· ∈ some) = some := by
  have hle : some.Sublist (all.filter (· ∈ some)) := by
    simpa [List.filter_eq_self.mpr] using hs.filter (· ∈ some)
  have hge : (all.filter (· ∈ some)).Subperm some :=
    List.subperm_of_subset (hall.filter _) fun name h => by simpa using (List.mem_filter.mp h).2
  exact (hle.eq_of_length_le hge.length_le).symm

/-- What two lists in one order have alone and in common. -/
theorem compares_of_common {shape : Shape} {m m' : Mutation} {all : List String}
    (hall : all.Nodup) (hold : ((shape.layout m).map (·.name)).Sublist all)
    (hnew : ((shape.layout m').map (·.name)).Sublist all) :
    (LayoutDiff.between shape m m').Compares ((shape.layout m).map (·.name))
      ((shape.layout m').map (·.name)) := by
  unfold LayoutDiff.between
  generalize (shape.layout m).map (·.name) = before at hold ⊢
  generalize (shape.layout m').map (·.name) = after at hnew ⊢
  have hboth : after.filter (· ∈ before) = before.filter (· ∈ after) :=
    calc after.filter (· ∈ before)
      _ = (all.filter (· ∈ after)).filter (· ∈ before) := by rw [filter_mem_of_sublist hnew hall]
      _ = (all.filter (· ∈ before)).filter (· ∈ after) := List.filter_comm _ _ all
      _ = before.filter (· ∈ after) := by rw [filter_mem_of_sublist hold hall]
  have hperm : (before.filter (· ∉ after) ++ after.filter (· ∈ before)).Perm before := by
    rw [hboth]
    simpa using List.perm_append_comm.trans (List.filter_append_perm (· ∈ after) before)
  exact {
    old := hperm
    new := by simpa using List.filter_append_perm (· ∈ before) after
    apart := by
      refine (hperm.nodup_iff.mpr (hall.sublist hold)).append ((hall.sublist hnew).filter _) ?_
      intro name h h'
      exact absurd (hperm.mem_iff.mp h) (by simpa using (List.mem_filter.mp h').2)
    removed := List.filter_sublist
    kept := ⟨by
      change (after.filter (· ∈ before)).Sublist before
      rw [hboth]
      exact List.filter_sublist, List.filter_sublist⟩
    added := List.filter_sublist }

/-- Where an event leads from a mutation, and what the difference of the two layouts tells. -/
structure Shape.Leads (shape : Shape) (m : Mutation) (event : Mutation.Event) (m' : Mutation)
    (diff : LayoutDiff) : Prop where
  made : m' = m.after event
  accepted : shape.accepts m'
  sockets : diff.Compares ((shape.layout m).map (·.name)) ((shape.layout m').map (·.name))
  connectors : diff.connectorsChanged ↔ shape.connectorsOf m ≠ shape.connectorsOf m'

namespace Shape

variable {shape : Shape}

/-- A transition is made exactly from a mutation of the shape and by an event that the shape supports, and
what it leads to is one of the shape again. Units may be given in any order. -/
theorem Distinct.transition_leads (hd : shape.Distinct) (m : Mutation) (event : Mutation.Event) :
    ((∃ m' diff, shape.transition m event = .ok (m', diff)) ↔
      shape.accepts m ∧ shape.Supports event) ∧
    (∀ m' diff, shape.transition m event = .ok (m', diff) →
      shape.Leads m event m' diff ∧
        ∀ kinds kinds', event = .compose kinds → kinds.Perm kinds' →
          shape.transition m (.compose kinds') = .ok (m', diff)) ∧
    (shape.accepts m = false →
      shape.transition m event = .error (.incompatible shape.type m.token)) := by
  refine ⟨⟨?_, ?_⟩, ?_, fun h => transition_of_not_accepts h event⟩
  · rintro ⟨m', diff, h⟩
    obtain ⟨ha, hs, -, -⟩ := transition_iff.mp h
    exact ⟨ha, hs⟩
  · rintro ⟨ha, hs⟩
    exact ⟨_, _, transition_iff.mpr ⟨ha, hs, rfl, rfl⟩⟩
  · intro m' diff h
    obtain ⟨-, hr, hfew, -⟩ := transition_eq_ok.mp h
    obtain ⟨ha, hs, rfl, rfl⟩ := transition_iff.mp h
    have ha' := accepts_of_requested hr hfew
    obtain ⟨all, hall, hold, hnew⟩ := hd.exists_common ha ha'
    refine ⟨⟨rfl, ha', compares_of_common hall hold hnew, by simp [LayoutDiff.between]⟩, ?_⟩
    rintro kinds kinds' rfl hp
    obtain ⟨hiff, hafter⟩ := supports_compose_perm shape m hp
    rw [hafter]
    exact transition_iff.mpr ⟨ha, hiff.mp hs, rfl, rfl⟩

/-- An else-if branch is taken from a block between a condition of its own and an else branch. -/
theorem transition_leads_of_branches :
    let choice : Shape :=
      { type := "choice", connectors := .statement, mutator := .branches
        sockets := [.value "IF0", .statement "DO0"] }
    choice.Distinct ∧ choice.Leads (.branches 2 true) (.setCount 1) (.branches 1 true)
      { removed := ["IF2", "DO2"], kept := ["IF0", "DO0", "IF1", "DO1", "ELSE"], added := []
        connectorsChanged := false } := by
  intro choice
  have hd : choice.Distinct := Orderly.distinct (by decide)
  exact ⟨hd, ((hd.transition_leads (.branches 2 true) (.setCount 1)).2.1 _ _ (by decide)).1⟩

end Shape

end BlockProgram
