import BlockProgram.Proofs.Shape.Layout
import Mathlib.Data.List.Perm.Subperm

/-! Units: the mutations that lists of unit kinds describe, and the sockets that belong to each unit. The
sockets of a unit are called after its place among the units, and have the same form in every place. Units in
any order share out the sockets of the layout among them. -/
namespace BlockProgram

/-- The kind of a socket and the types that it accepts. -/
def Socket.form (s : Socket) : SocketKind × Option (List String) := (s.kind, s.accepts)

namespace Shape

variable {shape : Shape} {m : Mutation} {type : String} {kinds kinds' : List String}

private theorem elseIfUnit_ne_elseUnit : elseIfUnit ≠ elseUnit := by decide

private theorem branchesOfUnits_eq_ok {k : Nat} {e : Bool} :
    branchesOfUnits type k e kinds = .ok m ↔
      (∀ kind ∈ kinds, kind = elseIfUnit ∨ kind = elseUnit) ∧
        kinds.count elseUnit + e.toNat ≤ 1 ∧
        m = .branches (k + kinds.count elseIfUnit) (e || decide (elseUnit ∈ kinds)) := by
  induction kinds generalizing k e with
  | nil => cases e <;> simp [branchesOfUnits, eq_comm]
  | cons kind rest ih =>
    unfold branchesOfUnits
    by_cases h1 : kind = elseIfUnit
    · subst h1
      rw [if_pos rfl]
      refine ih.trans ?_
      simp [elseIfUnit_ne_elseUnit, elseIfUnit_ne_elseUnit.symm, Nat.add_assoc, Nat.add_comm 1]
    · rw [if_neg h1]
      by_cases h2 : kind = elseUnit
      · subst h2
        rw [if_pos rfl]
        cases e with
        | true => simp
        | false =>
          rw [if_neg (by simp)]
          refine ih.trans ?_
          simp [h1]
      · rw [if_neg h2]
        simp [h1, h2]

/-- The lists of kinds that describe a mutation, and which one. -/
theorem ofUnits_eq_ok : shape.ofUnits kinds = .ok m ↔ match shape.mutator with
    | .repeats spec => (∀ kind ∈ kinds, kind = spec.placeholder) ∧ m = .items kinds.length
    | .branches => (∀ kind ∈ kinds, kind = elseIfUnit ∨ kind = elseUnit) ∧
        kinds.count elseUnit ≤ 1 ∧
          m = .branches (kinds.count elseIfUnit) (decide (elseUnit ∈ kinds))
    | _ => False := by
  unfold ofUnits
  cases shape.mutator with
  | fixed => simp
  | variants => simp
  | branches => simp [branchesOfUnits_eq_ok]
  | repeats spec =>
    dsimp only
    cases hf : kinds.find? fun k => k ≠ spec.placeholder with
    | none =>
      have hall := List.find?_eq_none.mp hf
      simp only [ne_eq, decide_not, Bool.not_eq_eq_eq_not, Bool.not_true, decide_eq_false_iff_not,
        not_not] at hall
      exact ⟨fun h => by cases h; exact ⟨hall, rfl⟩, fun h => by rw [h.2]⟩
    | some bad =>
      have hbad : bad ≠ spec.placeholder := by simpa using List.find?_some hf
      exact ⟨nofun, fun h => absurd (h.1 bad (List.mem_of_find?_eq_some hf)) hbad⟩

/-- What units describe does not depend on their order. -/
theorem ofUnits_of_perm (h : shape.ofUnits kinds = .ok m) (hp : kinds.Perm kinds') :
    shape.ofUnits kinds' = .ok m := by
  rw [ofUnits_eq_ok] at h ⊢
  simpa only [hp.mem_iff, hp.count_eq, hp.length_eq] using h

theorem placeholders_ne_of_ofUnits (h : shape.ofUnits kinds = .ok m) : shape.placeholders ≠ [] := by
  unfold ofUnits at h
  unfold placeholders
  cases hm : shape.mutator <;> simp_all

/-- Units describe a mutation only if they are units of the shape. -/
theorem exists_placeholder_of_ofUnits (h : shape.ofUnits kinds = .ok m) :
    ∀ kind ∈ kinds, ∃ p ∈ shape.placeholders, p.kind = kind := by
  intro kind hk
  rw [ofUnits_eq_ok] at h
  unfold placeholders
  cases hm : shape.mutator with
  | fixed => simp [hm] at h
  | variants => simp [hm] at h
  | repeats spec =>
    rw [hm] at h
    simpa using (h.1 kind hk).symm
  | branches =>
    rw [hm] at h
    simpa [eq_comm] using h.1 kind hk

/-- Every kind is one of the shape, and no kind has too many units. -/
def Allows (shape : Shape) (kinds : List String) : Prop :=
  ∀ kind ∈ kinds, ∃ p, shape.placeholders.find? (fun p => p.kind = kind) = some p ∧
    kinds.count kind ≤ min (p.max.getD Mutation.maxUnits) Mutation.maxUnits

private theorem allows_repeats {spec : RepeatSpec} (h : shape.mutator = .repeats spec) :
    shape.Allows kinds ↔
      (∀ kind ∈ kinds, kind = spec.placeholder) ∧ kinds.length ≤ Mutation.maxUnits := by
  unfold Allows
  simp only [placeholders, h]
  generalize Mutation.maxUnits = most
  constructor
  · intro ha
    have hall : ∀ kind ∈ kinds, kind = spec.placeholder := by
      intro kind hk
      obtain ⟨p, hp, -⟩ := ha kind hk
      by_contra hne
      simp [Ne.symm hne] at hp
    refine ⟨hall, ?_⟩
    cases kinds with
    | nil => simp
    | cons kind rest =>
      obtain ⟨p, hp, hcount⟩ := ha kind (by simp)
      have hfirst := hall kind (by simp)
      subst hfirst
      obtain rfl : ⟨spec.placeholder, none⟩ = p := by simpa using hp
      rw [List.count_eq_length.mpr fun k hk => (hall k hk).symm] at hcount
      simpa using hcount
  · rintro ⟨hall, hlen⟩ kind hk
    rw [hall kind hk]
    exact ⟨⟨spec.placeholder, none⟩, by simp, by
      simpa using Nat.le_trans List.count_le_length hlen⟩

private theorem allows_branches (h : shape.mutator = .branches) :
    shape.Allows kinds ↔ (∀ kind ∈ kinds, kind = elseIfUnit ∨ kind = elseUnit) ∧
      kinds.count elseUnit ≤ 1 ∧ kinds.count elseIfUnit ≤ Mutation.maxUnits := by
  have hmost : 1 ≤ Mutation.maxUnits := by decide
  unfold Allows
  simp only [placeholders, h]
  generalize Mutation.maxUnits = most at hmost ⊢
  constructor
  · intro ha
    have hall : ∀ kind ∈ kinds, kind = elseIfUnit ∨ kind = elseUnit := by
      intro kind hk
      obtain ⟨p, hp, -⟩ := ha kind hk
      by_contra hnot
      obtain ⟨h1, h2⟩ := not_or.mp hnot
      simp [Ne.symm h1, Ne.symm h2] at hp
    refine ⟨hall, ?_, ?_⟩
    · by_cases hk : elseUnit ∈ kinds
      · obtain ⟨p, hp, hcount⟩ := ha _ hk
        obtain rfl : ⟨elseUnit, some 1⟩ = p := by simpa [elseIfUnit_ne_elseUnit] using hp
        exact Nat.le_trans hcount (Nat.min_le_left _ _)
      · simp [List.count_eq_zero_of_not_mem hk]
    · by_cases hk : elseIfUnit ∈ kinds
      · obtain ⟨p, hp, hcount⟩ := ha _ hk
        exact Nat.le_trans hcount (Nat.min_le_right _ _)
      · simp [List.count_eq_zero_of_not_mem hk]
  · rintro ⟨hall, helse, hif⟩ kind hk
    rcases hall kind hk with rfl | rfl
    · exact ⟨⟨elseIfUnit, none⟩, by simp, by simpa using hif⟩
    · exact ⟨⟨elseUnit, some 1⟩, by simp [elseIfUnit_ne_elseUnit],
        Nat.le_min.mpr ⟨helse, Nat.le_trans helse hmost⟩⟩

/-- Kinds that are allowed are the ones that describe a mutation of not too many units. -/
theorem allows_iff (h : shape.placeholders ≠ []) : shape.Allows kinds ↔
    ∃ m, shape.ofUnits kinds = .ok m ∧ (shape.limitedUnits m).1 ≤ Mutation.maxUnits := by
  simp only [ofUnits_eq_ok]
  cases hm : shape.mutator with
  | fixed => simp [placeholders, hm] at h
  | variants => simp [placeholders, hm] at h
  | repeats spec =>
    rw [allows_repeats hm]
    simp [limitedUnits, hm, and_assoc]
  | branches =>
    rw [allows_branches hm]
    simp [limitedUnits, hm, and_assoc]

theorem Allows.mono (h : shape.Allows kinds) (hs : kinds'.Subperm kinds) :
    shape.Allows kinds' := by
  intro kind hk
  obtain ⟨p, hp, hcount⟩ := h kind (hs.subset hk)
  exact ⟨p, hp, Nat.le_trans (hs.count_le kind) hcount⟩

/-- A mutation that the shape accepts is described by its own units. -/
theorem ofUnits_unitsOf (h : shape.placeholders ≠ []) (ha : shape.accepts m) :
    shape.ofUnits (shape.unitsOf m) = .ok m := by
  rw [ofUnits_eq_ok]
  unfold accepts at ha
  unfold unitsOf
  cases hm : shape.mutator with
  | fixed => simp [placeholders, hm] at h
  | variants => simp [placeholders, hm] at h
  | repeats spec =>
    cases m <;> simp only [hm, Bool.false_eq_true] at ha
    simp
  | branches =>
    cases m <;> simp only [hm, Bool.false_eq_true] at ha
    rename_i n hasElse
    refine ⟨fun kind hk => ?_, ?_, ?_⟩
    · rcases List.mem_append.mp hk with hk | hk
      · exact .inl (List.eq_of_mem_replicate hk)
      · cases hasElse
        · simp at hk
        · exact .inr (by simpa using hk)
    · cases hasElse <;> simp [List.count_replicate, elseIfUnit_ne_elseUnit]
    · cases hasElse <;> simp [elseIfUnit_ne_elseUnit.symm]

/-- Units are those of the mutation that they describe, in some order. -/
theorem perm_unitsOf (h : shape.ofUnits kinds = .ok m) : kinds.Perm (shape.unitsOf m) := by
  rw [ofUnits_eq_ok] at h
  unfold unitsOf
  cases hm : shape.mutator with
  | fixed => simp [hm] at h
  | variants => simp [hm] at h
  | repeats spec =>
    rw [hm] at h
    obtain ⟨hall, rfl⟩ := h
    exact .of_eq (List.eq_replicate_of_mem hall)
  | branches =>
    rw [hm] at h
    obtain ⟨hall, hone, rfl⟩ := h
    have hrest : kinds.filter (fun kind => !decide (kind = elseIfUnit)) =
        kinds.filter (· = elseUnit) := by
      refine List.filter_congr fun kind hk => ?_
      rcases hall kind hk with rfl | rfl
      · simp [elseIfUnit_ne_elseUnit]
      · simp [elseIfUnit_ne_elseUnit.symm]
    have helse : List.replicate (kinds.count elseUnit) elseUnit =
        if decide (elseUnit ∈ kinds) then [elseUnit] else [] := by
      by_cases hk : elseUnit ∈ kinds
      · have hpos := List.count_pos_iff.mpr hk
        rw [show kinds.count elseUnit = 1 by omega]
        simp [hk]
      · rw [List.count_eq_zero_of_not_mem hk]
        simp [hk]
    calc
      kinds.Perm (kinds.filter (· = elseIfUnit) ++
          kinds.filter fun kind => !decide (kind = elseIfUnit)) :=
        (List.filter_append_perm _ kinds).symm
      _ = List.replicate (kinds.count elseIfUnit) elseIfUnit ++
          List.replicate (kinds.count elseUnit) elseUnit := by
        rw [hrest, List.filter_eq, List.filter_eq]
      _ = _ := by rw [helse]

/-- The mutations that units describe are accepted if there are not too many units. -/
theorem accepts_of_ofUnits (h : shape.ofUnits kinds = .ok m) :
    shape.accepts m ↔ (shape.limitedUnits m).1 ≤ Mutation.maxUnits := by
  rw [ofUnits_eq_ok] at h
  cases hm : shape.mutator with
  | fixed => simp [hm] at h
  | variants => simp [hm] at h
  | repeats spec =>
    rw [hm] at h
    obtain ⟨-, rfl⟩ := h
    simp [accepts, limitedUnits, hm]
  | branches =>
    rw [hm] at h
    obtain ⟨-, -, rfl⟩ := h
    simp [accepts, limitedUnits, hm]

/-- Only variants change connectors. -/
theorem connectorsOf_of_ofUnits (h : shape.ofUnits kinds = .ok m) (m' : Mutation) :
    shape.connectorsOf m' = shape.connectors := by
  unfold ofUnits at h
  unfold connectorsOf
  cases hm : shape.mutator <;> simp_all

/-- The sockets of a mutation that belong to its units: the structural ones, apart from the label of an empty
group. -/
def unitSocketsOf (shape : Shape) (m : Mutation) : List Socket :=
  (shape.layout m).filter fun s => s.structural ∧ s.name ≠ emptySocket

/-- The sockets of units are those of the mutation without the label of an empty group. -/
theorem unitSocketsOf_eq (shape : Shape) (m : Mutation) :
    shape.unitSocketsOf m = (shape.mutableSockets m).filter fun s => s.name ≠ emptySocket := by
  have hfixed : (shape.sockets.map (·.instantiate false)).filter
      (fun s => s.structural ∧ s.name ≠ emptySocket) = [] := by
    simp [List.filter_eq_nil_iff, SocketSpec.instantiate]
  unfold unitSocketsOf layout
  rw [List.filter_append, hfixed, List.nil_append]
  exact List.filter_congr fun s hs => by simp [(empty_of_mem_mutableSockets hs).2]

private theorem map_name_unitSocketsOf (shape : Shape) (m : Mutation) :
    (shape.unitSocketsOf m).map (·.name) =
      ((shape.mutableSockets m).map (·.name)).filter (· ≠ emptySocket) := by
  rw [unitSocketsOf_eq, List.filter_map]
  rfl

private theorem map_name_unitSocketsOf_items {spec : RepeatSpec} (hm : shape.mutator = .repeats spec)
    (n : Nat) : (shape.unitSocketsOf (.items n)).map (·.name) =
      (List.range n).flatMap spec.unitNames := by
  have hlabel : (if n = 0 then spec.emptyLabel.toList.map fun _ => emptySocket else []).filter
      (· ≠ emptySocket) = [] := by
    split <;> simp
  rw [map_name_unitSocketsOf, map_name_items hm, List.filter_append, hlabel, List.nil_append]
  refine List.filter_eq_self.mpr fun name hn => ?_
  obtain ⟨i, -, hi⟩ := List.mem_flatMap.mp hn
  simpa using RepeatSpec.ne_of_mem_unitNames unnumbered_emptySocket hi

private theorem map_name_unitSocketsOf_branches (hm : shape.mutator = .branches) (n : Nat)
    (hasElse : Bool) : (shape.unitSocketsOf (.branches n hasElse)).map (·.name) =
      (List.range n).flatMap (fun i => elseIfNames (i + 1)) ++
        if hasElse then [elseSocket.name] else [] := by
  rw [map_name_unitSocketsOf, map_name_branches hm]
  refine List.filter_eq_self.mpr fun name hn => ?_
  rcases List.mem_append.mp hn with hn | hn
  · obtain ⟨i, -, hi⟩ := List.mem_flatMap.mp hn
    simpa using ne_of_mem_elseIfNames unnumbered_emptySocket hi
  · have helse : elseSocket.name ≠ emptySocket := by decide
    cases hasElse
    · simp at hn
    · simpa using List.mem_singleton.mp hn ▸ helse

/-- Else-if units in a row are numbered on from the `k` before them. -/
theorem branchUnitNames_replicate (k n : Nat) (rest : List String) :
    branchUnitNames k (List.replicate n elseIfUnit ++ rest) =
      (List.range' (k + 1) n).map elseIfNames ++ branchUnitNames (k + n) rest := by
  induction n generalizing k with
  | zero => rfl
  | succ n ih =>
    rw [List.replicate_succ, List.cons_append, branchUnitNames, if_neg elseIfUnit_ne_elseUnit, ih,
      List.range'_succ, List.map_cons, List.cons_append, show k + 1 + n = k + (n + 1) by omega]

/-- The units of a mutation name its sockets one after the other. -/
theorem flatten_unitSocketNames_unitsOf (shape : Shape) (m : Mutation) :
    (shape.unitSocketNames (shape.unitsOf m)).flatten = (shape.unitSocketsOf m).map (·.name) := by
  cases hm : shape.mutator with
  | fixed => simp [unitSocketNames, unitSocketsOf_eq, mutableSockets, hm]
  | variants => simp [unitSocketNames, unitSocketsOf_eq, mutableSockets, hm]
  | repeats spec =>
    cases m with
    | items n =>
      rw [map_name_unitSocketsOf_items hm]
      simp [unitSocketNames, unitsOf, hm, List.flatMap_def]
    | _ => simp [unitSocketNames, unitsOf, unitSocketsOf_eq, mutableSockets, hm]
  | branches =>
    cases m with
    | branches n hasElse =>
      have hnumbered : ((List.range' 1 n).map elseIfNames).flatten =
          (List.range n).flatMap fun i => elseIfNames (i + 1) := by
        rw [List.range'_eq_map_range, List.map_map, ← List.flatMap_def]
        simp only [Function.comp_def, Nat.add_comm 1]
      rw [map_name_unitSocketsOf_branches hm]
      simp only [unitSocketNames, unitsOf, hm, branchUnitNames_replicate]
      rw [List.flatten_append, hnumbered]
      cases hasElse <;> rfl
    | _ => simp [unitSocketNames, unitsOf, unitSocketsOf_eq, mutableSockets, hm, branchUnitNames]

private theorem branchUnitNames_perm (k : Nat) (h : kinds.Perm kinds') :
    (branchUnitNames k kinds).Perm (branchUnitNames k kinds') := by
  induction h generalizing k with
  | nil => exact .refl _
  | cons kind _ ih =>
    unfold branchUnitNames
    split
    · exact (ih k).cons _
    · exact (ih (k + 1)).cons _
  | swap first second rest =>
    -- Two else-if units take their numbers by place; an else unit takes none and may pass.
    by_cases hf : first = elseUnit <;> by_cases hs : second = elseUnit <;>
      simp only [branchUnitNames, hf, hs, if_true, if_false]
    · exact .refl _
    · exact .swap _ _ _
    · exact .swap _ _ _
    · exact .refl _
  | trans _ _ ih ih' => exact (ih k).trans (ih' k)

/-- In another order, units share out the same names. -/
theorem unitSocketNames_perm (shape : Shape) (h : kinds.Perm kinds') :
    (shape.unitSocketNames kinds).Perm (shape.unitSocketNames kinds') := by
  unfold unitSocketNames
  cases shape.mutator with
  | fixed => exact .refl _
  | variants => exact .refl _
  | repeats spec => rw [h.length_eq]
  | branches => exact branchUnitNames_perm 0 h

/-- Units in any order have the sockets of the mutation that they describe. -/
theorem flatten_unitSocketNames_perm (h : shape.ofUnits kinds = .ok m) :
    (shape.unitSocketNames kinds).flatten.Perm ((shape.unitSocketsOf m).map (·.name)) := by
  rw [← flatten_unitSocketNames_unitsOf]
  exact (unitSocketNames_perm shape (perm_unitsOf h)).flatten

/-- Units in any order describe one mutation, and each of its sockets is named by one of them. The units of a
mutation describe it again and name its sockets in the order of its layout. -/
theorem unitSocketNames_layout (shape : Shape)
    (hm : (∃ spec, shape.mutator = .repeats spec) ∨ shape.mutator = .branches) :
    (∀ kinds m, shape.ofUnits kinds = .ok m →
      (shape.unitSocketNames kinds).flatten.Perm ((shape.unitSocketsOf m).map (·.name)) ∧
        ∀ kinds', kinds.Perm kinds' → shape.ofUnits kinds' = .ok m) ∧
    ∀ m, shape.accepts m → shape.ofUnits (shape.unitsOf m) = .ok m ∧
      (shape.unitSocketNames (shape.unitsOf m)).flatten = (shape.unitSocketsOf m).map (·.name) := by
  have hunits : shape.placeholders ≠ [] := by
    unfold placeholders
    rcases hm with ⟨spec, hm⟩ | hm <;> simp [hm]
  refine ⟨fun kinds m h => ?_, fun m ha => ?_⟩
  · exact ⟨flatten_unitSocketNames_perm h, fun kinds' hp => ofUnits_of_perm h hp⟩
  · exact ⟨ofUnits_unitsOf hunits ha, flatten_unitSocketNames_unitsOf shape m⟩

/-- An else unit between two else-if units takes no number from them. -/
theorem unitSocketNames_layout_of_branches :
    let choice : Shape :=
      { type := "choice", connectors := .statement, mutator := .branches
        sockets := [.value "IF0", .statement "DO0"] }
    let kinds := [elseIfUnit, elseUnit, elseIfUnit]
    choice.ofUnits kinds = .ok (.branches 2 true) ∧ choice.accepts (.branches 2 true) ∧
      ["IF1", "DO1", "ELSE", "IF2", "DO2"].Perm
        ((choice.unitSocketsOf (.branches 2 true)).map (·.name)) ∧
      choice.ofUnits [elseUnit, elseIfUnit, elseIfUnit] = .ok (.branches 2 true) ∧
      (choice.unitSocketsOf (.branches 2 true)).map (·.name) =
        ["IF1", "DO1", "IF2", "DO2", "ELSE"] := by
  intro choice kinds
  obtain ⟨hany, hown⟩ := choice.unitSocketNames_layout (.inr rfl)
  have hunits : choice.ofUnits kinds = .ok (.branches 2 true) := rfl
  have haccepts : choice.accepts (.branches 2 true) := by decide
  have hnames : (choice.unitSocketNames kinds).flatten = ["IF1", "DO1", "ELSE", "IF2", "DO2"] := by
    decide
  have hlayout : (choice.unitSocketNames (choice.unitsOf (.branches 2 true))).flatten =
      ["IF1", "DO1", "IF2", "DO2", "ELSE"] := by
    decide
  obtain ⟨hperm, hsame⟩ := hany kinds _ hunits
  exact ⟨hunits, haccepts, hnames ▸ hperm, hsame _ (.swap _ _ _),
    (hown _ haccepts).2.symm.trans hlayout⟩

/-- The sockets of the units are sockets of the mutation that the units describe. -/
theorem unitSocketNames_subperm (h : shape.ofUnits kinds = .ok m) :
    (shape.unitSocketNames kinds).flatten.Subperm ((shape.mutableSockets m).map (·.name)) := by
  refine (flatten_unitSocketNames_perm h).subperm.trans (List.Sublist.subperm ?_)
  rw [unitSocketsOf_eq]
  exact List.filter_sublist.map _

/-- All that a mutation adds belongs to units, apart from the label of an empty group. -/
theorem mem_unitSocketNames (h : shape.ofUnits kinds = .ok m) {s : Socket}
    (hs : s ∈ shape.mutableSockets m) (hplain : s.kind ≠ .dummy) :
    s.name ∈ (shape.unitSocketNames kinds).flatten := by
  have hname : s.name ≠ emptySocket := by
    intro hn
    obtain ⟨-, l, rfl⟩ := label_of_emptySocket hs hn
    exact hplain rfl
  have hunit : s ∈ shape.unitSocketsOf m := by
    rw [unitSocketsOf_eq]
    exact List.mem_filter.mpr ⟨hs, decide_eq_true hname⟩
  exact (flatten_unitSocketNames_perm h).mem_iff.mpr (List.mem_map_of_mem hunit)

/-- No two units share the name of a socket. -/
theorem Distinct.nodup_unitSocketNames (h : shape.Distinct)
    (hm : shape.ofUnits kinds = .ok m) : (shape.unitSocketNames kinds).flatten.Nodup := by
  obtain ⟨l, hl, hs⟩ := unitSocketNames_subperm hm
  have hn : ((shape.mutableSockets m).map (·.name)).Nodup := by
    have := h m
    rw [layout, List.map_append] at this
    exact this.of_append_right
  exact hl.nodup_iff.mp (hn.sublist hs)

/-- A name belongs to one socket of one unit. -/
theorem Distinct.unit_of_name {i i' q q' : Nat} {name : String} {l l' : List String}
    (h : shape.Distinct) (hm : shape.ofUnits kinds = .ok m)
    (hl : (shape.unitSocketNames kinds)[i]? = some l) (hq : l[q]? = some name)
    (hl' : (shape.unitSocketNames kinds)[i']? = some l') (hq' : l'[q']? = some name) :
    i = i' ∧ q = q' := by
  obtain ⟨hnodup, hapart⟩ := List.nodup_flatten.mp (h.nodup_unitSocketNames hm)
  obtain ⟨hi, rfl⟩ := List.getElem?_eq_some_iff.mp hl
  obtain ⟨hi', rfl⟩ := List.getElem?_eq_some_iff.mp hl'
  have hmem := List.mem_of_getElem? hq
  have hmem' := List.mem_of_getElem? hq'
  have hlt := List.pairwise_iff_getElem.mp hapart
  obtain rfl : i = i' := by
    rcases Nat.lt_trichotomy i i' with hlt' | he | hlt'
    · exact absurd hmem' (hlt _ _ hi hi' hlt' hmem)
    · exact he
    · exact absurd hmem (hlt _ _ hi' hi hlt' hmem')
  obtain ⟨hq, hn⟩ := List.getElem?_eq_some_iff.mp hq
  obtain ⟨hq', hn'⟩ := List.getElem?_eq_some_iff.mp hq'
  exact ⟨rfl, (hnodup _ (List.getElem_mem hi)).getElem_inj_iff.mp (hn.trans hn'.symm)⟩

/-- The socket of a unit is a structural one. -/
theorem structural_of_mem_unitSocketNames {name : String}
    (h : shape.ofUnits kinds = .ok m) (hn : name ∈ (shape.unitSocketNames kinds).flatten) :
    ∃ s ∈ shape.layout m, s.name = name ∧ s.structural := by
  obtain ⟨s, hs, hname⟩ := List.mem_map.mp ((unitSocketNames_subperm h).subset hn)
  exact ⟨s, mem_layout.mpr (.inr hs), hname, (empty_of_mem_mutableSockets hs).2⟩

private theorem length_branchUnitNames (k : Nat) (kinds : List String) :
    (branchUnitNames k kinds).length = kinds.length := by
  induction kinds generalizing k with
  | nil => rfl
  | cons kind rest ih =>
    unfold branchUnitNames
    split <;> simp [ih]

/-- Shapes without units have no names for them; otherwise every unit has its names. -/
theorem length_unitSocketNames (shape : Shape) (kinds : List String) :
    (shape.unitSocketNames kinds).length =
      if shape.placeholders = [] then 0 else kinds.length := by
  unfold unitSocketNames placeholders
  cases shape.mutator <;> simp [length_branchUnitNames]

/-- The kinds of the sockets of a unit, each with the types that it accepts. -/
def unitForms (shape : Shape) (kind : String) : List (SocketKind × Option (List String)) :=
  match shape.mutator with
  | .repeats spec => spec.templates.map fun t => (t.kind, t.accepts)
  | .branches =>
    if kind = elseUnit then [(.statement, none)]
    else [(.value, some ["Boolean"]), (.statement, none)]
  | _ => []

/-- No unit has a mere label among its sockets. -/
def Plain (shape : Shape) : Prop :=
  match shape.mutator with
  | .repeats spec => ∀ t ∈ spec.templates, t.kind ≠ .dummy
  | _ => True

instance (shape : Shape) : Decidable shape.Plain := by
  unfold Plain
  obtain ⟨_, _, _, _, mutator, _⟩ := shape
  rcases mutator with _ | _ | _ | _ <;> infer_instance

theorem Plain.unitForms (h : shape.Plain) (kind : String) :
    ∀ form ∈ shape.unitForms kind, form.1 ≠ .dummy := by
  unfold Plain at h
  unfold Shape.unitForms
  cases hm : shape.mutator with
  | fixed => simp
  | variants => simp
  | branches =>
    dsimp only
    split <;> simp
  | repeats spec =>
    rw [hm] at h
    simpa using h

private theorem branchUnit_sockets {j k : Nat} {kind : String} {l : List String}
    (hm : shape.mutator = .branches) (hk : kinds[j]? = some kind)
    (hl : (branchUnitNames k kinds)[j]? = some l) : ∃ m, ∃ ss ⊆ shape.mutableSockets m,
      ss.map (·.name) = l ∧ ss.map Socket.form = shape.unitForms kind := by
  induction kinds generalizing j k with
  | nil => simp at hk
  | cons first rest ih =>
    unfold branchUnitNames at hl
    cases j with
    | succ j =>
      split at hl
      · exact ih (by simpa using hk) (by simpa using hl)
      · exact ih (by simpa using hk) (by simpa using hl)
    | zero =>
      obtain rfl : first = kind := by simpa using hk
      split at hl
      · rename_i helse
        obtain rfl : ["ELSE"] = l := by simpa using hl
        refine ⟨.branches 0 true, [elseSocket], ?_, rfl, ?_⟩
        · simp [mutableSockets, hm]
        · rw [unitForms, hm]
          simp only [if_pos helse]
          rfl
      · rename_i hif
        obtain rfl : elseIfNames (k + 1) = l := by simpa using hl
        refine ⟨.branches (k + 1) false, elseIfSockets (k + 1), fun s hs => ?_, rfl, ?_⟩
        · simp only [mutableSockets, hm, List.mem_append, List.mem_flatMap, List.mem_range]
          exact .inl ⟨k, by omega, hs⟩
        · rw [unitForms, hm]
          simp only [if_neg hif]
          rfl

/-- Wherever a unit stands, its sockets are ones of some layout, and of the same kinds. -/
theorem unit_sockets {j : Nat} {kind : String} {l : List String} (hk : kinds[j]? = some kind)
    (hl : (shape.unitSocketNames kinds)[j]? = some l) : ∃ m, ∃ ss ⊆ shape.mutableSockets m,
      ss.map (·.name) = l ∧ ss.map Socket.form = shape.unitForms kind := by
  unfold unitSocketNames at hl
  cases hm : shape.mutator with
  | fixed => simp [hm] at hl
  | variants => simp [hm] at hl
  | branches =>
    rw [hm] at hl
    exact branchUnit_sockets hm hk hl
  | repeats spec =>
    simp only [hm, List.getElem?_map, Option.map_eq_some_iff] at hl
    obtain ⟨i, -, rfl⟩ := hl
    refine ⟨.items (i + 1), spec.unitSockets i, fun s hs => ?_, RepeatSpec.map_name_unitSockets, ?_⟩
    · simp only [mutableSockets, hm]
      exact RepeatSpec.mem_sockets.mpr (.inr ⟨i, by omega, hs⟩)
    · simp only [unitForms, hm]
      refine List.ext_getElem? fun q => ?_
      simp only [RepeatSpec.unitSockets, List.getElem?_map, List.getElem?_mapIdx, Option.map_map]
      rfl

/-- A unit has as many sockets wherever it stands. -/
theorem length_unit {j : Nat} {kind : String} {l : List String} (hk : kinds[j]? = some kind)
    (hl : (shape.unitSocketNames kinds)[j]? = some l) :
    l.length = (shape.unitForms kind).length := by
  obtain ⟨_, ss, -, hn, hkind⟩ := unit_sockets hk hl
  rw [← hn, ← hkind, List.length_map, List.length_map]

/-- The socket of a unit has the form that the unit has there. -/
theorem Distinct.form_of_unit {j q : Nat} {kind name : String} {l : List String} {s : Socket}
    (h : shape.Distinct) (hk : kinds[j]? = some kind)
    (hl : (shape.unitSocketNames kinds)[j]? = some l) (hq : l[q]? = some name)
    (hs : s ∈ shape.layout m) (hn : s.name = name) :
    (shape.unitForms kind)[q]? = some s.form := by
  obtain ⟨m', ss, hss, hnames, hkinds⟩ := unit_sockets hk hl
  rw [← hnames, List.getElem?_map, Option.map_eq_some_iff] at hq
  obtain ⟨s', hs', hn'⟩ := hq
  have hmem : s' ∈ shape.layout m' := mem_layout.mpr (.inr (hss (List.mem_of_getElem? hs')))
  rw [← hkinds, List.getElem?_map, hs', h.agree hs hmem (hn.trans hn'.symm)]
  rfl

end Shape

end BlockProgram
