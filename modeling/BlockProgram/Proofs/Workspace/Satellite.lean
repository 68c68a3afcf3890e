import BlockProgram.Proofs.Workspace.Compose

/-! Satellites between `saveConnections` and `compose`. Units may come, go and move meanwhile; the blocks
that `compose` then plugs in are blocks that the owner held when connections were saved. -/
namespace BlockProgram

open Edit

namespace Satellite

/-- `t` comes from `s` by any edits of units. -/
inductive Rearranged (s : Satellite) : Satellite → Prop where
  | refl : Rearranged s s
  | push {t t' : Satellite} {kind : String} (h : Rearranged s t) (ht : t.push kind = .ok t') :
      Rearranged s t'
  | insert {t t' : Satellite} {index : Nat} {kind : String} (h : Rearranged s t)
      (ht : t.insert index kind = .ok t') : Rearranged s t'
  | remove {t : Satellite} (h : Rearranged s t) (index : Nat) : Rearranged s (t.remove index).2
  | move {t t' : Satellite} {start goal : Nat} (h : Rearranged s t)
      (ht : t.move? start goal = some t') : Rearranged s t'

variable {s t t' : Satellite} {u : SatelliteUnit} {index : Nat} {kind : String}

/-- A unit may be put in exactly if its kind is allowed and has room for one more. -/
theorem insert_eq_ok : s.insert index kind = .ok t ↔
    ∃ p, s.allowed.find? (fun p => p.kind = kind) = some p ∧
      (s.units.filter fun u => u.kind = kind).length <
        min (p.max.getD Mutation.maxUnits) Mutation.maxUnits ∧
      t = { s with
        units := s.units.insertIdx (min index s.units.length) ⟨s.nextNumber, kind, []⟩
        nextNumber := s.nextNumber + 1 } := by
  unfold insert
  cases s.allowed.find? fun p => p.kind = kind with
  | none => simp
  | some p =>
    dsimp only
    split
    · rename_i hfull
      simp only [reduceCtorEq, Option.some.injEq, exists_eq_left', false_iff, not_and]
      omega
    · rename_i hfree
      simp only [Except.ok.injEq, Option.some.injEq, exists_eq_left']
      exact ⟨fun h => ⟨by omega, h.symm⟩, fun h => h.2.symm⟩

private theorem move?_eq_some {start goal : Nat} : s.move? start goal = some t ↔
    ∃ u, s.units[start]? = some u ∧ goal < s.units.length ∧
      t = { s with units := (s.units.eraseIdx start).insertIdx goal u } := by
  unfold move?
  cases s.units[start]? with
  | none => simp
  | some u =>
    dsimp only
    split
    · rename_i hgoal
      simp [hgoal, eq_comm]
    · rename_i hgoal
      simp [hgoal]

/-- Edits of units put in new units, and leave what units there are in another order or some of them
out. -/
theorem Rearranged.invariant {P : Satellite → Prop} (h : Rearranged s t) (start : P s)
    (grow : ∀ (t : Satellite) (units : List SatelliteUnit) (kind : String) (p : Placeholder), P t →
      t.allowed.find? (fun p => p.kind = kind) = some p →
      (t.units.filter fun u => u.kind = kind).length <
        min (p.max.getD Mutation.maxUnits) Mutation.maxUnits →
      units.Perm (⟨t.nextNumber, kind, []⟩ :: t.units) →
      P { t with units, nextNumber := t.nextNumber + 1 })
    (shrink : ∀ (t : Satellite) (units : List SatelliteUnit), P t → units.Subperm t.units →
      P { t with units }) : P t := by
  have hinsert {t t' : Satellite} {index : Nat} {kind : String} (ih : P t)
      (ht : t.insert index kind = .ok t') : P t' := by
    obtain ⟨p, hp, hfree, rfl⟩ := insert_eq_ok.mp ht
    exact grow t _ kind p ih hp hfree (List.perm_insertIdx _ _ (Nat.min_le_right _ _))
  induction h with
  | refl => exact start
  | push _ ht ih => exact hinsert ih ht
  | insert _ ht ih => exact hinsert ih ht
  | remove _ index ih => exact shrink _ _ ih (List.eraseIdx_sublist _ _).subperm
  | @move t _ start goal _ ht ih =>
    obtain ⟨u, hu, hgoal, rfl⟩ := move?_eq_some.mp ht
    obtain ⟨hstart, rfl⟩ := List.getElem?_eq_some_iff.mp hu
    have hle : goal ≤ (t.units.eraseIdx start).length := by
      rw [List.length_eraseIdx_of_lt hstart]
      omega
    exact shrink _ _ ih ((List.perm_insertIdx _ _ hle).trans
      (List.getElem_cons_eraseIdx_perm hstart)).subperm

theorem Rearranged.owner (h : Rearranged s t) : t.owner = s.owner :=
  h.invariant (P := fun t => t.owner = s.owner) rfl (fun _ _ _ _ ih _ _ _ => ih) fun _ _ ih _ => ih

theorem Rearranged.type (h : Rearranged s t) : t.type = s.type :=
  h.invariant (P := fun t => t.type = s.type) rfl (fun _ _ _ _ ih _ _ _ => ih) fun _ _ ih _ => ih

theorem Rearranged.allowed (h : Rearranged s t) : t.allowed = s.allowed :=
  h.invariant (P := fun t => t.allowed = s.allowed) rfl (fun _ _ _ _ ih _ _ _ => ih)
    fun _ _ ih _ => ih

/-- Every unit was there before, or is new and unconnected. -/
theorem Rearranged.units (h : Rearranged s t) : s.nextNumber ≤ t.nextNumber ∧
    ∀ u ∈ t.units, u ∈ s.units ∨ s.nextNumber ≤ u.number ∧ u.saved = [] := by
  refine h.invariant (P := fun t => s.nextNumber ≤ t.nextNumber ∧
    ∀ u ∈ t.units, u ∈ s.units ∨ s.nextNumber ≤ u.number ∧ u.saved = [])
    ⟨Nat.le_refl _, fun u hu => .inl hu⟩ ?_ fun t units ih hs =>
      ⟨ih.1, fun u hu => ih.2 u (hs.subset hu)⟩
  intro t units kind p ih _ _ hperm
  refine ⟨Nat.le_succ_of_le ih.1, fun u hu => ?_⟩
  rcases List.mem_cons.mp (hperm.subset hu) with rfl | hu
  · exact .inr ⟨ih.1, rfl⟩
  · exact ih.2 u hu

/-- Every unit has a number of its own, and the next number is new. -/
structure WellNumbered (s : Satellite) : Prop where
  nodup : (s.units.map (·.number)).Nodup
  old : ∀ u ∈ s.units, u.number < s.nextNumber

/-- Rearranged units still have numbers of their own. -/
theorem Rearranged.wellNumbered (h : Rearranged s t) (hs : s.WellNumbered) : t.WellNumbered := by
  refine h.invariant hs ?_ fun t units ih ⟨l, hl, hsub⟩ =>
    ⟨(hl.map _).nodup_iff.mp (ih.nodup.sublist (hsub.map _)), fun u hu =>
      ih.old u (hsub.subset (hl.mem_iff.mpr hu))⟩
  intro t units kind p ih _ _ hperm
  refine ⟨(hperm.map _).nodup_iff.mpr (List.nodup_cons.mpr ⟨fun hm => ?_, ih.nodup⟩), fun u hu => ?_⟩
  · obtain ⟨u, hu, he⟩ := List.mem_map.mp hm
    exact absurd he (Nat.ne_of_lt (ih.old u hu))
  · rcases List.mem_cons.mp (hperm.subset hu) with rfl | hu
    · exact Nat.lt_succ_self _
    · exact Nat.lt_succ_of_lt (ih.old u hu)

theorem Rearranged.known (h : Rearranged s t)
    (hs : ∀ u ∈ s.units, ∃ p ∈ s.allowed, p.kind = u.kind) :
    ∀ u ∈ t.units, ∃ p ∈ t.allowed, p.kind = u.kind := by
  refine h.invariant (P := fun t => ∀ u ∈ t.units, ∃ p ∈ t.allowed, p.kind = u.kind) hs ?_
    fun t units ih hsub u hu => ih u (hsub.subset hu)
  intro t units kind p ih hp _ hperm u hu
  rcases List.mem_cons.mp (hperm.subset hu) with rfl | hu
  · exact ⟨p, List.mem_of_find?_eq_some hp, by simpa using List.find?_some hp⟩
  · exact ih u hu

theorem count_kinds (s : Satellite) (kind : String) :
    s.kinds.count kind = (s.units.filter fun u => u.kind = kind).length := by
  rw [kinds, List.count_eq_countP, List.countP_map, List.countP_eq_length_filter]
  rfl

/-- A satellite never comes to hold more units of a kind than the shape allows. -/
theorem Rearranged.allows {shape : Shape} (h : Rearranged s t)
    (hallowed : s.allowed = shape.placeholders) (hs : shape.Allows s.kinds) :
    shape.Allows t.kinds := by
  refine (h.invariant (P := fun t => t.allowed = shape.placeholders ∧ shape.Allows t.kinds)
    ⟨hallowed, hs⟩ ?_ fun t units ih ⟨l, hl, hsub⟩ =>
      ⟨ih.1, ih.2.mono ⟨l.map _, hl.map _, hsub.map _⟩⟩).2
  intro t units kind p ih hp hfree hperm
  suffices hone : shape.Allows (kind :: t.kinds) from ⟨ih.1, hone.mono (hperm.map _).subperm⟩
  intro k hk
  by_cases he : k = kind
  · subst he
    exact ⟨p, ih.1 ▸ hp, by rw [List.count_cons_self, count_kinds]; exact hfree⟩
  · obtain ⟨p', hp', hcount⟩ := ih.2 k ((List.mem_cons.mp hk).resolve_left he)
    exact ⟨p', hp', by rwa [List.count_cons_of_ne (Ne.symm he)]⟩

/-- Units that there can be have names for their sockets. -/
theorem length_names {shape : Shape} (h : shape.placeholders ≠ []) :
    (shape.unitSocketNames s.kinds).length = s.units.length := by
  rw [shape.length_unitSocketNames, if_neg h]
  exact List.length_map ..

/-- A satellite that has noted what its units hold in a block. -/
def saved (s : Satellite) (shape : Shape) (b : Block) : Satellite :=
  { s with units := Workspace.savedUnits b s.units (shape.unitSocketNames s.kinds) }

end Satellite

namespace Workspace

variable {w : Workspace} {s s₁ s₂ : Satellite}

theorem perform_saveConnections {b : Block} {shape : Shape} (hb : w.find? s.owner = some b)
    (hshape : w.shapes.get? b.type = some shape) :
    (saveConnections s).perform w = (.ok (s.saved shape b), w) := by
  have he : (saveConnections s).Ensures w (fun t w' => t = s.saved shape b ∧ w' = w)
      fun _ _ => False := by
    unfold saveConnections
    simp only [ensures_bind, ensures_refusedAs, ensures_require, hb, ensures_requireShape, hshape]
    exact ⟨rfl, rfl⟩
  obtain ⟨_, _, he, rfl, rfl⟩ := he.exists_ok
  exact he

theorem saveConnections_eq_ok (h : ((saveConnections s).perform w).1 = .ok s₁) :
    ∃ b shape, w.find? s.owner = some b ∧ w.shapes.get? b.type = some shape ∧
      s₁ = s.saved shape b := by
  have hrefused : (saveConnections s).Ensures w (fun _ _ => ∃ b shape, w.find? s.owner = some b ∧
      w.shapes.get? b.type = some shape) fun _ _ => True := by
    unfold saveConnections
    rw [ensures_bind, ensures_refusedAs, ensures_require]
    cases hb : w.find? s.owner with
    | none => trivial
    | some b =>
      dsimp only
      rw [ensures_bind, ensures_refusedAs, ensures_requireShape]
      cases hshape : w.shapes.get? b.type with
      | none => trivial
      | some shape => exact ⟨b, shape, rfl, hshape⟩
  unfold Ensures at hrefused
  split at hrefused
  · obtain ⟨b, shape, hb, hshape⟩ := hrefused
    rw [perform_saveConnections hb hshape] at h
    exact ⟨b, shape, hb, hshape, (Except.ok.inj h).symm⟩
  · rename_i heq
    rw [heq] at h
    cases h

theorem map_savedUnits {α : Type} {b : Block} {f : SatelliteUnit → α}
    (hf : ∀ u saved, f { u with saved } = f u) (units : List SatelliteUnit)
    (names : List (List String)) : (savedUnits b units names).map f = units.map f := by
  induction units generalizing names with
  | nil => simp [savedUnits]
  | cons u units ih =>
    cases names with
    | nil => simp [savedUnits]
    | cons l names => simp [savedUnits, hf, ih]

theorem kinds_saved (s : Satellite) (shape : Shape) (b : Block) :
    (s.saved shape b).kinds = s.kinds :=
  map_savedUnits (fun _ _ => rfl) s.units (shape.unitSocketNames s.kinds)

theorem numbers_saved (s : Satellite) (shape : Shape) (b : Block) :
    (s.saved shape b).units.map (·.number) = s.units.map (·.number) :=
  map_savedUnits (fun _ _ => rfl) s.units (shape.unitSocketNames s.kinds)

theorem getElem?_savedUnits {b : Block} {units : List SatelliteUnit} {names : List (List String)}
    (hlen : names.length = units.length) {i : Nat} {v : SatelliteUnit} :
    (savedUnits b units names)[i]? = some v ↔ ∃ u l, units[i]? = some u ∧ names[i]? = some l ∧
      v = { u with saved := l.map b.target? } := by
  induction units generalizing names i with
  | nil => simp [savedUnits]
  | cons u units ih =>
    cases names with
    | nil => simp at hlen
    | cons l names =>
      cases i with
      | zero => simp [savedUnits, eq_comm]
      | succ i => simpa [savedUnits] using ih (by simpa using hlen)

theorem mem_slots {units : List SatelliteUnit} {names : List (List String)} {n : String}
    {saved : Option BlockId} : (n, saved) ∈ slots units names ↔
      ∃ (j q : Nat) (u : SatelliteUnit) (l : List String), units[j]? = some u ∧
        names[j]? = some l ∧ l[q]? = some n ∧ u.saved[q]? = some saved := by
  unfold slots
  simp only [List.mem_flatMap]
  simp only [List.mem_iff_getElem?, List.getElem?_zip_eq_some, Prod.exists]
  constructor
  · rintro ⟨u, l, ⟨j, hu, hl⟩, q, hn, hs⟩
    exact ⟨j, q, u, l, hu, hl, hn, hs⟩
  · rintro ⟨j, q, u, l, hu, hl, hn, hs⟩
    exact ⟨u, l, ⟨j, hu, hl⟩, q, hn, hs⟩

/-- What is planned can be plugged into the socket, if types do not matter. -/
theorem Composable.fitting {b : Block} {shape : Shape} {m : Mutation} (hc : Composable s w b shape m)
    (hd : shape.Distinct) (hplain : shape.Plain) : Fitting False shape m (s.planned w) w := by
  intro p hp
  obtain ⟨k, hk, hname, -⟩ := (hc.plan hd).structural p hp
  rw [hc.planned] at hp
  obtain ⟨hslot, hre⟩ := mem_plan hp
  obtain ⟨j, q, u, l, hu, hl, hq, -⟩ := mem_slots.mp hslot
  have hu' : s.kinds[j]? = some u.kind := by simp [Satellite.kinds, hu]
  have hform := hd.form_of_unit hu' hl hq hk hname
  obtain ⟨d, hd⟩ := exists_bare_of_has (reattachable_iff.mp hre).1
  exact ⟨k, hk, hname, hplain.unitForms u.kind _ (List.mem_of_getElem? hform), d, hd, False.elim⟩

/-- What is planned fits the sockets that it is planned for, as far as kinds go. -/
theorem Sound.fitting {rooted typed : Prop} {b : Block} {shape : Shape} {m : Mutation}
    (h : Sound rooted typed w) (hplain : ∀ shape ∈ w.shapes.shapes, shape.Plain)
    (hc : Composable s w b shape m) : Fitting False shape m (s.planned w) w :=
  have hshape := (ShapeRegistry.mem_of_get? hc.known).1
  hc.fitting (h.distinct shape hshape) (hplain shape hshape)

/-- A saved unit that stands somewhere among the units now, with the socket names that it had. -/
theorem saved_unit {b : Block} {shape : Shape} {t : Satellite} {v : SatelliteUnit}
    (hnone : shape.placeholders ≠ []) (hr : (s.saved shape b).Rearranged t) (hv : v ∈ t.units) :
    (∃ (i : Nat) (u : SatelliteUnit) (l : List String), s.units[i]? = some u ∧
      (shape.unitSocketNames s.kinds)[i]? = some l ∧ v = { u with saved := l.map b.target? }) ∨
      s.nextNumber ≤ v.number ∧ v.saved = [] := by
  refine (hr.units.2 v hv).imp_left fun hu => ?_
  obtain ⟨i, hi⟩ := List.mem_iff_getElem?.mp hu
  exact ⟨i, (getElem?_savedUnits (Satellite.length_names hnone)).mp hi⟩

/-- What is planned, if connections have been saved since the last edit, is held by the owner in the
same place of the same kind of unit. -/
theorem planned_origin (hs : ((saveConnections s).perform w).1 = .ok s₁)
    (hr : s₁.Rearranged s₂) {p : String × BlockId} (hp : p ∈ s₂.planned w) :
    ∃ b shape, ∃ (i j q : Nat) (kind : String) (l l' : List String) (n : String),
      w.find? s₂.owner = some b ∧ w.shapes.get? b.type = some shape ∧
      s.kinds[i]? = some kind ∧ (shape.unitSocketNames s.kinds)[i]? = some l ∧ l[q]? = some n ∧
      s₂.kinds[j]? = some kind ∧ (shape.unitSocketNames s₂.kinds)[j]? = some l' ∧
      l'[q]? = some p.1 ∧ b.target? n = some p.2 := by
  obtain ⟨b, shape, hb, hshape, rfl⟩ := saveConnections_eq_ok hs
  have howner : s₂.owner = s.owner := hr.owner
  simp only [Satellite.planned, howner, hb, Option.bind_some, hshape] at hp
  obtain ⟨j, q, v, l', hv, hl', hq', hc⟩ := mem_slots.mp (mem_plan hp).1
  have hnone : shape.placeholders ≠ [] := by
    intro hnone
    have hlen := shape.length_unitSocketNames s₂.kinds
    rw [if_pos hnone] at hlen
    simp [List.eq_nil_of_length_eq_zero hlen] at hl'
  rcases saved_unit hnone hr (List.mem_of_getElem? hv) with ⟨i, u, l, hu, hl, rfl⟩ | ⟨-, hnew⟩
  · obtain ⟨n, hn, ht⟩ := by simpa [List.getElem?_map, Option.map_eq_some_iff] using hc
    exact ⟨b, shape, i, j, q, u.kind, l, l', n, howner ▸ hb, hshape, by simp [Satellite.kinds, hu],
      hl, hn, by simp [Satellite.kinds, hv], hl', hq', ht⟩
  · simp [hnew] at hc

theorem Linked.planned_of_saved (h : w.Linked)
    (hs : ((saveConnections s).perform w).1 = .ok s₁) (hr : s₁.Rearranged s₂)
    {p : String × BlockId} (hp : p ∈ s₂.planned w) :
    ∃ n, w.parent? p.2 = some (.input s₂.owner n) := by
  obtain ⟨b, _, _, _, _, _, _, _, n, hb, _, _, _, _, _, _, _, ht⟩ := planned_origin hs hr hp
  exact ⟨n, (h.link _ _).mp (by simp [occupant?, hb, ht])⟩

/-- It fits the socket that it is planned for, since it is held by one of the same form. -/
theorem Sound.fitting_of_saved {rooted typed : Prop} {b : Block} {shape : Shape} {m : Mutation}
    (h : Sound rooted typed w) (hs : ((saveConnections s).perform w).1 = .ok s₁)
    (hr : s₁.Rearranged s₂) (hc : Composable s₂ w b shape m) :
    Fitting typed shape m (s₂.planned w) w := by
  intro p hp
  have hdistinct := h.distinct shape (ShapeRegistry.mem_of_get? hc.known).1
  obtain ⟨b', shape', i, j, q, kind, l, l', n, hb, hshape, hk, hl, hq, hk', hl', hq', ht⟩ :=
    planned_origin hs hr hp
  cases Option.some.inj (hb.symm.trans hc.owner)
  cases Option.some.inj (hshape.symm.trans hc.known)
  obtain ⟨k', hk'mem, hname', -⟩ := (hc.plan hdistinct).structural p hp
  obtain ⟨above, k, d, ha, hfound, hd, hplain, htakes⟩ :=
    h.fits _ _ ((h.linked.link (.input s₂.owner n) p.2).mp (by simp [occupant?, hb, ht]))
  obtain rfl := eq_bare_of_find? hb ha
  have hkmem : k ∈ shape.layout b.mutation :=
    (h.layout hb hc.known).1 ▸ List.mem_of_find?_eq_some hfound
  have hform := hdistinct.form_of_unit hk hl hq hkmem (by simpa using List.find?_some hfound)
  have hform' := hdistinct.form_of_unit hk' hl' hq' hk'mem hname'
  obtain ⟨hkind, haccepts⟩ := Prod.mk.inj (Option.some.inj (hform.symm.trans hform'))
  refine ⟨k', hk'mem, hname', hkind ▸ hplain, d, hd, fun ht => ?_⟩
  simpa [Socket.takes, hkind, haccepts] using htakes ht

end Workspace

end BlockProgram
