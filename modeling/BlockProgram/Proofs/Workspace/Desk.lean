import BlockProgram.Proofs.Workspace.Registry
import BlockProgram.Proofs.Workspace.Transplant

/-! A workspace edited while satellites are open. Each satellite keeps the connections that it saved, and
may be composed after the workspace has moved on. Whether links still form a forest and blocks still
fit their sockets is then decided by the steps that compose, and by nothing else. -/
namespace BlockProgram

open Edit Workspace

/-- A workspace and the satellites that have been taken from it. -/
structure Desk where
  workspace : Workspace
  satellites : List Satellite
  deriving DecidableEq, Repr

namespace Desk

/-- What can be done next. Satellites are told by their places in the list. -/
inductive Step where
  | edit (action : Action)
  | decompose (id : BlockId)
  | copy (satellite : Nat)
  | save (satellite : Nat)
  | push (satellite : Nat) (kind : String)
  | insert (satellite index : Nat) (kind : String)
  | remove (satellite index : Nat)
  | move (satellite start goal : Nat)
  | compose (satellite : Nat)
  deriving DecidableEq, Repr

/-- Change one satellite, or leave it as it is if the change is refused. -/
def revise {ε : Type} (d : Desk) (satellite : Nat) (f : Satellite → Except ε Satellite) : Desk :=
  { d with satellites := d.satellites.modify satellite fun s => (f s).toOption.getD s }

/-- The desk after a step, be it carried out or refused. -/
def apply (d : Desk) : Step → Desk
  | .edit action => { d with workspace := action.apply d.workspace }
  | .decompose id => { d with
      satellites := d.satellites ++ ((Workspace.decompose id).perform d.workspace).1.toOption.toList }
  | .copy i => { d with satellites := d.satellites ++ d.satellites[i]?.toList }
  | .save i => d.revise i fun s => ((saveConnections s).perform d.workspace).1
  | .push i kind => d.revise i fun s => s.push kind
  | .insert i index kind => d.revise i fun s => s.insert index kind
  | .remove i index => d.revise (ε := Unit) i fun s => .ok (s.remove index).2
  | .move i start goal => d.revise i fun s => (s.move? start goal).elim (.error ()) .ok
  | .compose i =>
    match d.satellites[i]? with
    | some s => { d with workspace := ((Workspace.compose s).perform d.workspace).2 }
    | none => d

/-- The desk after some steps from an empty workspace. -/
def run (shapes : ShapeRegistry) (steps : List Step) : Desk :=
  steps.foldl apply ⟨.empty shapes, []⟩

/-- The step composes the satellite, and is carried out. -/
def Composes (d : Desk) (step : Step) (s : Satellite) : Prop :=
  ∃ i diff, step = .compose i ∧ d.satellites[i]? = some s ∧
    ((Workspace.compose s).perform d.workspace).1 = .ok diff

end Desk

namespace Workspace

/-- Composing the satellite plugs in a block that its owner is, or is beneath. -/
def ClosesCircle (w : Workspace) (s : Satellite) : Prop := ∃ p ∈ s.planned w, w.Under p.2 s.owner

/-- Composing the satellite plugs in a block that does not fit the socket that its unit has now. -/
def Misfits (w : Workspace) (s : Satellite) : Prop :=
  ∃ b shape m, Composable s w b shape m ∧ ∃ p ∈ s.planned w, ∃ k ∈ shape.layout m, k.name = p.1 ∧
    ∃ d, w.find? p.2 = some d ∧ ¬ k.takes d.connectors

/-- Every socket takes the block that it holds: a value socket an expression of a type that it accepts, a
statement socket a statement. -/
def WellTyped (w : Workspace) : Prop :=
  ∀ b ∈ w.blocks, ∀ k ∈ b.sockets, ∀ c ∈ k.target,
    ∃ d ∈ w.blocks, d.id = c ∧ k.takes d.connectors

instance (w : Workspace) : Decidable w.WellTyped := by
  unfold WellTyped
  infer_instance

end Workspace

namespace Desk

variable {rooted typed : Prop} {d : Desk} {shapes : ShapeRegistry} {step : Step} {s : Satellite}

private theorem workspace_compose {i : Nat} (hs : d.satellites[i]? = some s) :
    (d.apply (.compose i)).workspace = ((Workspace.compose s).perform d.workspace).2 := by
  simp [apply, hs]

private theorem after_compose {P : Workspace → Prop} (hs : d.Composes step s)
    (h : (Workspace.compose s).Ensures d.workspace (fun _ w' => P w') fun _ _ => True) :
    P (d.apply step).workspace := by
  obtain ⟨i, diff, rfl, hi, hok⟩ := hs
  rw [workspace_compose hi]
  exact h.of_ok (Prod.ext hok rfl)

theorem wellTyped_of_sound {w : Workspace} (h : Sound rooted True w) : w.WellTyped := by
  intro b hb k hk c ht
  have hfind := find?_of_mem h.linked.nodup hb
  have hsocket := Block.socket?_of_mem (h.linked.socket_names hfind) hk
  have hp := (h.linked.link _ _).mp (occupant?_of_socket? hfind hsocket ht)
  obtain ⟨above, k', bare, ha, hk', hbare, -, htakes⟩ := h.fits _ _ hp
  obtain ⟨d, hd, rfl⟩ := Option.map_eq_some_iff.mp hbare
  obtain rfl := eq_bare_of_find? hfind ha
  rw [Block.socket?_bare, hsocket] at hk'
  obtain rfl := Option.some.inj hk'
  exact ⟨d, (mem_of_find? hd).1, (mem_of_find? hd).2, htakes trivial⟩

private theorem takes_of_wellTyped {w : Workspace} {p c : BlockId} {n : String} (hl : w.Linked)
    (hw : w.WellTyped) (hp : w.parent? c = some (.input p n)) :
    ∃ b d k, w.bare? p = some b ∧ w.bare? c = some d ∧ k ∈ b.sockets ∧ k.name = n ∧
      k.takes d.connectors := by
  obtain ⟨b, hb, ht⟩ := Option.bind_eq_some_iff.mp ((hl.link _ _).mpr hp)
  obtain ⟨k, hk, ht⟩ := Option.bind_eq_some_iff.mp ht
  obtain ⟨d, hd, rfl, htakes⟩ := hw b (mem_of_find? hb).1 k (List.mem_of_find?_eq_some hk) c ht
  refine ⟨b.bare, d.bare, k.emptied, bare?_of_find? hb,
    bare?_of_find? (find?_of_mem hl.nodup hd),
    List.mem_map_of_mem (List.mem_of_find?_eq_some hk), ?_, htakes⟩
  exact (show k.name = n by simpa using List.find?_some hk)

section apply

variable (hplain : ∀ shape ∈ d.workspace.shapes.shapes, shape.Plain)
include hplain

/-- Only what is composed can do harm. -/
theorem sound_apply (h : Sound rooted typed d.workspace)
    (hgood : ∀ s, d.Composes step s →
      (rooted → ¬ d.workspace.ClosesCircle s) ∧ (typed → ¬ d.workspace.Misfits s)) :
    Sound rooted typed (d.apply step).workspace := by
  cases step with
  | edit a => exact h.apply a
  | compose i =>
    cases hs : d.satellites[i]? with
    | none => simpa [apply, hs] using h
    | some s =>
      rw [workspace_compose hs]
      have hcompose := h.ensures_compose (s := s) fun _ _ _ hc => h.fitting hplain hc
      unfold Ensures at hcompose
      split at hcompose
      · rename_i diff w' he
        obtain ⟨b, shape, m, hc, -, hsound⟩ := hcompose
        obtain ⟨hcircle, hmisfit⟩ := hgood s ⟨i, diff, rfl, hs, congrArg Prod.fst he⟩
        rw [he]
        refine hsound (fun hr p hp hu => hcircle hr ⟨p, hp, hu⟩) fun p hp => ?_
        obtain ⟨k, hk, hname, hkind, bare, hbare, -⟩ := h.fitting hplain hc p hp
        refine ⟨k, hk, hname, hkind, bare, hbare, fun ht => ?_⟩
        obtain ⟨block, hfind, rfl⟩ := Option.map_eq_some_iff.mp hbare
        by_contra hno
        exact hmisfit ht ⟨b, shape, m, hc, p, hp, k, hk, hname, block, hfind, hno⟩
      · rename_i he
        rw [he]
        exact hcompose.1
  | _ => exact h

/-- A composition that closes a circle leaves the workspace with one. -/
theorem not_acyclic_apply (h : Sound True typed d.workspace) (hs : d.Composes step s)
    (hcircle : d.workspace.ClosesCircle s) : ¬ (d.apply step).workspace.Acyclic := by
  refine after_compose (P := fun w' => ¬ w'.Acyclic) hs ?_
  refine Workspace.ensures_compose (fun b shape m hc => ?_) fun _ => trivial
  obtain ⟨p, hp, hu⟩ := hcircle
  have hsame : shape.connectorsOf m = shape.connectorsOf b.mutation := by
    rw [Shape.connectorsOf_of_ofUnits hc.units, Shape.connectorsOf_of_ofUnits hc.units]
  have hre : ∀ p ∈ s.planned d.workspace, d.workspace.reattachable p.2 s.owner := by
    intro p hp
    rw [hc.planned] at hp
    exact (mem_plan hp).2
  have hd := h.distinct shape (ShapeRegistry.mem_of_get? hc.known).1
  exact (h.ensures_transplant hc.owner hc.known hsame (hc.plan hd) hre
    (h.fitting hplain hc)).mono (fun _ _ ht => ht.not_acyclic h hc.owner hre hp hu)
      fun _ _ h' => h'.elim

/-- A composition that plugs in a misfit leaves the workspace ill-typed. -/
theorem not_wellTyped_apply (h : Sound False False d.workspace) (hs : d.Composes step s)
    (hmisfit : d.workspace.Misfits s) : ¬ (d.apply step).workspace.WellTyped := by
  refine after_compose (P := fun w' => ¬ w'.WellTyped) hs ?_
  refine (h.ensures_compose (s := s) fun _ _ _ hc => h.fitting hplain hc).mono
    (fun _ w' ⟨b', shape', m', hc', hre, hsound⟩ => ?_) fun _ _ _ => trivial
  obtain ⟨b, shape, m, hc, p, hp, k, hk, hname, block, hfind, hno⟩ := hmisfit
  obtain rfl := Option.some.inj (hc.owner.symm.trans hc'.owner)
  obtain rfl := Option.some.inj (hc.known.symm.trans hc'.known)
  obtain rfl := Except.ok.inj (hc.units.symm.trans hc'.units)
  have hw' := hsound False.elim (h.fitting hplain hc)
  intro hw
  obtain ⟨o, d', k', ho, hd', hk', hname', htakes⟩ :=
    takes_of_wellTyped hw'.linked hw (hre.planted p hp)
  obtain ⟨o₀, ho₀, rfl⟩ := hre.bare _ _ ho
  obtain ⟨d₀, hd₀, rfl⟩ := hre.bare _ _ hd'
  rw [if_pos rfl] at hk'
  have hdistinct := h.distinct shape (ShapeRegistry.mem_of_get? hc.known).1
  obtain rfl : k' = k :=
    List.inj_on_of_nodup_map (hdistinct m) hk' hk (hname'.trans hname.symm)
  obtain rfl : block.bare = d₀ := by simpa [bare?, hfind] using hd₀
  refine hno ?_
  split at htakes
  · rename_i he
    -- the owner itself; its connectors do not depend on its units
    obtain rfl := Option.some.inj (hc.owner.symm.trans (he ▸ hfind))
    rw [(h.layout hc.owner hc.known).2, Shape.connectorsOf_of_ofUnits hc.units]
    have htakes : k'.takes (shape.connectorsOf m) := htakes
    rwa [Shape.connectorsOf_of_ofUnits hc.units] at htakes
  · exact htakes

end apply

private theorem run_concat (p : List Step) : run shapes (p ++ [step]) = (run shapes p).apply step := by
  simp [run]

/-- Whatever is done at a desk, its workspace is one that edits and satellites lead to. -/
theorem reached_run (p : List Step) : Reached shapes (run shapes p).workspace := by
  induction p using List.reverseRecOn with
  | nil => exact .empty
  | append_singleton p step ih =>
    rw [run_concat]
    cases step with
    | edit a => exact ih.act a
    | compose i =>
      cases hs : (run shapes p).satellites[i]? with
      | none => simpa [apply, hs] using ih
      | some s =>
        rw [workspace_compose hs]
        exact ih.compose s
    | _ => exact ih

theorem shapes_run (p : List Step) : (run shapes p).workspace.shapes = shapes :=
  (reached_run p).shapes_eq

section standard

private theorem sound_run {p : List Step}
    (h : ∀ q step s, q ++ [step] <+: p → (run Python.standard.shapes q).Composes step s →
      (rooted → ¬ (run Python.standard.shapes q).workspace.ClosesCircle s) ∧
        (typed → ¬ (run Python.standard.shapes q).workspace.Misfits s)) :
    Sound rooted typed (run Python.standard.shapes p).workspace := by
  induction p using List.reverseRecOn with
  | nil => exact sound_empty Python.standard_distinct fun _ => Python.standard_regular
  | append_singleton p step ih =>
    rw [run_concat]
    refine sound_apply ?_ (ih fun q step' s hq => h q step' s (hq.trans (List.prefix_append _ _)))
      fun s => h p step s List.prefix_rfl
    rw [shapes_run]
    exact Python.standard_plain

/-- Whatever is done at a desk, both ends of every link agree, though the links may form circles or be
ill-typed. -/
theorem sound_untyped (p : List Step) :
    Sound False False (run Python.standard.shapes p).workspace := (reached_run p).sound

/-- No circle ever arises exactly if no satellite is composed that plugs in a block above its owner. -/
theorem acyclic_iff (steps : List Step) :
    (∀ p, p <+: steps → (run Python.standard.shapes p).workspace.Acyclic) ↔
      ∀ p step s, p ++ [step] <+: steps → (run Python.standard.shapes p).Composes step s →
        ¬ (run Python.standard.shapes p).workspace.ClosesCircle s := by
  constructor
  · intro h p step s hp hs hcircle
    have hsound : Sound True False (run Python.standard.shapes p).workspace :=
      { sound_untyped p with
        regular := False.elim
        acyclic := fun _ => h p ((List.prefix_append _ _).trans hp) }
    have hplain : ∀ shape ∈ (run Python.standard.shapes p).workspace.shapes.shapes, shape.Plain := by
      rw [shapes_run]
      exact Python.standard_plain
    have hnext := h _ hp
    rw [run_concat] at hnext
    exact not_acyclic_apply hplain hsound hs hcircle hnext
  · intro h p hp
    have hsound : Sound True False (run Python.standard.shapes p).workspace :=
      sound_run fun q step s hq hs => ⟨fun _ => h q step s (hq.trans hp) hs, False.elim⟩
    exact hsound.acyclic trivial

/-- A list is unplugged from another one and then holds it; composing the satellite of the first plugs the
second in again. -/
theorem circle_of_stale_connections :
    let steps : List Step := [
      .edit (.add ⟨"outer"⟩ "lists_create_with" false),
      .edit (.add ⟨"inner"⟩ "lists_create_with" false),
      .edit (.connectValue ⟨"outer"⟩ "ITEM0" ⟨"inner"⟩),
      .decompose ⟨"outer"⟩, .save 0,
      .edit (.disconnect ⟨"inner"⟩), .edit (.connectValue ⟨"inner"⟩ "ITEM0" ⟨"outer"⟩),
      .compose 0]
    ¬ (run Python.standard.shapes steps).workspace.Acyclic := by
  intro steps
  have houter : (run Python.standard.shapes steps).workspace.parent? ⟨"outer"⟩ =
      some (.input ⟨"inner"⟩ "ITEM0") := by decide +kernel
  have hinner : (run Python.standard.shapes steps).workspace.parent? ⟨"inner"⟩ =
      some (.input ⟨"outer"⟩ "ITEM0") := by decide +kernel
  exact not_acyclic houter (.of_parent hinner)

/-- Every block fits its socket at all times exactly if no satellite is composed that plugs in a block
where it does not fit. -/
theorem wellTyped_iff (steps : List Step) :
    (∀ p, p <+: steps → (run Python.standard.shapes p).workspace.WellTyped) ↔
      ∀ p step s, p ++ [step] <+: steps → (run Python.standard.shapes p).Composes step s →
        ¬ (run Python.standard.shapes p).workspace.Misfits s := by
  constructor
  · intro h p step s hp hs hmisfit
    have hplain : ∀ shape ∈ (run Python.standard.shapes p).workspace.shapes.shapes, shape.Plain := by
      rw [shapes_run]
      exact Python.standard_plain
    have hnext := h _ hp
    rw [run_concat] at hnext
    exact not_wellTyped_apply hplain (sound_untyped p) hs hmisfit hnext
  · intro h p hp
    have hsound : Sound False True (run Python.standard.shapes p).workspace :=
      sound_run fun q step s hq hs => ⟨False.elim, fun _ => h q step s (hq.trans hp) hs⟩
    exact wellTyped_of_sound hsound

/-- A block becomes a statement while a satellite remembers it as an element of a list. -/
theorem misfit_of_stale_connections :
    let steps : List Step := [
      .edit (.add ⟨"list"⟩ "lists_create_with" false),
      .edit (.add ⟨"item"⟩ "lists_get_index" false),
      .edit (.connectValue ⟨"list"⟩ "ITEM0" ⟨"item"⟩),
      .decompose ⟨"list"⟩, .save 0, .edit (.setVariant ⟨"item"⟩ "REMOVE"), .compose 0]
    ¬ (run Python.standard.shapes steps).workspace.WellTyped := by
  decide +kernel

end standard

end Desk

end BlockProgram
