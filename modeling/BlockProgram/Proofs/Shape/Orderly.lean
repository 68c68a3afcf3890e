import BlockProgram.Proofs.Shape.Layout

/-! When no layout of a shape repeats a socket name. There are layouts for every number of units, so this
is told from the names that the numbers are put behind. -/
namespace BlockProgram

/-- The names of the fixed sockets are told apart, and they are not the names of units. -/
def Shape.Orderly (shape : Shape) : Prop :=
  (shape.sockets.map (·.name)).Nodup ∧
    match shape.mutator with
    | .repeats spec => (spec.templates.map (·.name)).Nodup ∧
        (∀ t ∈ spec.templates, Unnumbered t.name) ∧
        ∀ s ∈ shape.sockets, Unnumbered s.name ∧ s.name ≠ emptySocket
    | .branches => ∀ s ∈ shape.sockets,
        s.name ∈ elseIfNames 0 ∨ Unnumbered s.name ∧ s.name ≠ elseSocket.name
    | _ => True

instance (shape : Shape) : Decidable shape.Orderly := by
  unfold Shape.Orderly
  obtain ⟨_, _, _, _, mutator, _⟩ := shape
  rcases mutator with _ | _ | _ | _ <;> infer_instance

private theorem nodup_unitNames {spec : RepeatSpec} (hn : (spec.templates.map (·.name)).Nodup)
    (hu : ∀ t ∈ spec.templates, Unnumbered t.name) (n : Nat) :
    ((List.range n).flatMap spec.unitNames).Nodup := by
  refine List.nodup_flatMap.mpr ⟨fun i _ => ?_, ?_⟩
  · unfold RepeatSpec.unitNames
    refine List.Nodup.map_on (fun t ht t' ht' he => ?_) hn.of_map
    exact List.inj_on_of_nodup_map hn ht ht' ((hu t ht).eq_of_numbered (hu t' ht') he).1
  · refine List.nodup_range.pairwise_of_forall_ne fun i _ j _ hij x hx hy => hij ?_
    obtain ⟨t, ht, rfl⟩ := List.mem_map.mp hx
    obtain ⟨t', ht', he⟩ := List.mem_map.mp hy
    exact ((hu t' ht').eq_of_numbered (hu t ht) he).2.symm

private theorem eq_of_mem_elseIfNames {name : String} {j k : Nat}
    (hj : name ∈ Shape.elseIfNames j) (hk : name ∈ Shape.elseIfNames k) : j = k := by
  have hif : Unnumbered "IF" := by decide
  have hdo : Unnumbered "DO" := by decide
  rcases Shape.mem_elseIfNames.mp hj with rfl | rfl <;>
    rcases Shape.mem_elseIfNames.mp hk with he | he
  · exact (hif.eq_of_numbered hif he).2
  · exact absurd (hif.eq_of_numbered hdo he).1 (by decide)
  · exact absurd (hdo.eq_of_numbered hif he).1 (by decide)
  · exact (hdo.eq_of_numbered hdo he).2

private theorem nodup_elseIfNames (n : Nat) :
    ((List.range n).flatMap fun i => Shape.elseIfNames (i + 1)).Nodup := by
  refine List.nodup_flatMap.mpr ⟨fun i _ => ?_, ?_⟩
  · refine List.nodup_cons.mpr ⟨fun h => ?_, List.nodup_singleton _⟩
    have he := (show Unnumbered "IF" by decide).eq_of_numbered (show Unnumbered "DO" by decide)
      (List.mem_singleton.mp h)
    exact absurd he.1 (by decide)
  · refine List.nodup_range.pairwise_of_forall_ne fun i _ j _ hij x hx hy => hij ?_
    have := eq_of_mem_elseIfNames hx hy
    omega

private theorem unnumbered_elseSocket : Unnumbered Shape.elseSocket.name := by decide

private theorem nodup_branchNames (n : Nat) (hasElse : Bool) :
    ((List.range n).flatMap (fun i => Shape.elseIfNames (i + 1)) ++
      if hasElse then [Shape.elseSocket.name] else []).Nodup := by
  refine List.Nodup.append (nodup_elseIfNames n) (by cases hasElse <;> simp) ?_
  intro name hin hel
  obtain ⟨i, -, hi⟩ := List.mem_flatMap.mp hin
  cases hasElse
  · simp at hel
  · exact Shape.ne_of_mem_elseIfNames unnumbered_elseSocket hi (by simpa using hel)

/-- The names of the sockets outside the fixed part are told apart, and are not names of fixed ones. -/
theorem mutable_names {shape : Shape} (h : shape.Orderly) (m : Mutation) :
    ((shape.mutableSockets m).map (·.name)).Nodup ∧
      ∀ name ∈ (shape.mutableSockets m).map (·.name), ∀ s ∈ shape.sockets, s.name ≠ name := by
  obtain ⟨-, hm⟩ := h
  cases hmut : shape.mutator with
  | fixed => simp [Shape.mutableSockets, hmut]
  | variants => simp [Shape.mutableSockets, hmut]
  | repeats spec =>
    rw [hmut] at hm
    obtain ⟨hn, hu, hfixed⟩ := hm
    cases m with
    | items n =>
      rw [Shape.map_name_items hmut]
      refine ⟨?_, fun name hname s hs => ?_⟩
      · by_cases h0 : n = 0
        · cases spec.emptyLabel <;> simp [h0]
        · simpa [h0] using nodup_unitNames hn hu n
      · rcases List.mem_append.mp hname with hlabel | hunit
        · obtain ⟨l, -, rfl⟩ : ∃ l ∈ spec.emptyLabel.toList, Shape.emptySocket = name := by
            split at hlabel
            · exact List.mem_map.mp hlabel
            · cases hlabel
          exact (hfixed s hs).2
        · obtain ⟨i, -, hi⟩ := List.mem_flatMap.mp hunit
          exact (RepeatSpec.ne_of_mem_unitNames (hfixed s hs).1 hi).symm
    | _ => simp [Shape.mutableSockets, hmut]
  | branches =>
    rw [hmut] at hm
    cases m with
    | branches n hasElse =>
      rw [Shape.map_name_branches hmut]
      refine ⟨nodup_branchNames n hasElse, fun name hname s hs he => ?_⟩
      rcases List.mem_append.mp hname with hname | hname
      · obtain ⟨i, -, hi⟩ := List.mem_flatMap.mp hname
        rcases hm s hs with h0 | ⟨hun, -⟩
        · have := eq_of_mem_elseIfNames h0 (he ▸ hi)
          omega
        · exact Shape.ne_of_mem_elseIfNames hun hi he.symm
      · cases hasElse
        · simp at hname
        · obtain rfl : name = Shape.elseSocket.name := by simpa using hname
          rcases hm s hs with h0 | ⟨-, hne⟩
          · exact Shape.ne_of_mem_elseIfNames unnumbered_elseSocket h0 he
          · exact hne he
    | _ => simp [Shape.mutableSockets, hmut]

theorem Shape.Orderly.distinct {shape : Shape} (h : shape.Orderly) : shape.Distinct := by
  intro m
  obtain ⟨hmut, hapart⟩ := mutable_names h m
  rw [map_name_layout]
  refine List.Nodup.append h.1 hmut fun name hf hm => ?_
  obtain ⟨s, hs, he⟩ := List.mem_map.mp hf
  exact hapart name hm s hs he

end BlockProgram
