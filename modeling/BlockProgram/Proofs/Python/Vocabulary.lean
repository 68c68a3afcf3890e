import BlockProgram.Proofs.Shape.Declared
import BlockProgram.Proofs.Shape.Orderly
import BlockProgram.Proofs.Shape.Units
import BlockProgram.Proofs.Workspace.Sound
import BlockProgram.Python.Vocabulary

/-! The standard vocabulary as the list of its types. Its shapes have what workspaces ask of shapes. -/
namespace BlockProgram

private def regularForms (shape : Shape) : Bool :=
  (shape.forms.all fun c => !c.output || !c.next) &&
    match shape.mutator with
    | .variants _ _ => shape.forms.all fun c => !c.next || c.previous
    | _ => true

private def valuedForms (shape : Shape) : Bool :=
  (shape.forms.all fun c => !c.output) ||
    ((shape.sockets.all fun k => k.kind ≠ .statement) && match shape.mutator with
      | .repeats spec => spec.templates.all fun k => k.kind ≠ .statement
      | .branches => false
      | _ => true)

namespace Python

variable {types : List (Shape × Rule)} {type : String} {shape : Shape}

private theorem install_eq (hn : (types.map fun entry => entry.1.type).Nodup) :
    ({} : Vocabulary).install types =
      ⟨⟨types.map (·.1)⟩, ⟨types.map fun entry => (entry.1.type, entry.2)⟩⟩ := by
  induction types using List.reverseRecOn with
  | nil => rfl
  | append_singleton types entry ih =>
    rw [List.map_append, List.nodup_append] at hn
    have hnew (e : Shape × Rule) (he : e ∈ types) : e.1.type ≠ entry.1.type :=
      hn.2.2 _ (List.mem_map_of_mem he) _ (by simp)
    have hshapes : ¬ ((⟨types.map (·.1)⟩ : ShapeRegistry).get? entry.1.type).isSome := by
      simpa [ShapeRegistry.get?] using fun shape rule he => hnew (shape, rule) he
    have hrules : ¬ (⟨types.map fun entry => (entry.1.type, entry.2)⟩ : RuleRegistry).has
        entry.1.type := by
      simpa [RuleRegistry.has, RuleRegistry.get?] using fun shape rule he => hnew (shape, rule) he
    have hinstall : ({} : Vocabulary).install (types ++ [entry]) =
        ((({} : Vocabulary).install types).addShape entry.1).addRule entry.1.type entry.2 := by
      unfold Vocabulary.install
      rw [List.foldl_append]
      rfl
    rw [hinstall, ih hn.1]
    unfold Vocabulary.addShape Vocabulary.addRule ShapeRegistry.register RuleRegistry.register
    dsimp only
    rw [if_neg hshapes, if_neg hrules, List.map_append, List.map_append]
    rfl

private theorem standardTypes_forms : (standardTypes.map fun entry => entry.1.type).Nodup ∧
    ∀ entry ∈ standardTypes, entry.1.Orderly ∧ entry.1.Declared ∧ entry.1.Plain ∧
      regularForms entry.1 ∧ valuedForms entry.1 := by
  decide +kernel

private theorem nodup_types : (standardTypes.map fun entry => entry.1.type).Nodup :=
  standardTypes_forms.1

/-- The standard vocabulary as it is listed. What is evaluated over all shapes is evaluated over the list, not
over one registration after the other. -/
theorem standard_eq : standard = ⟨⟨standardTypes.map (·.1)⟩,
    ⟨standardTypes.map fun entry => (entry.1.type, entry.2)⟩⟩ :=
  install_eq nodup_types

theorem get?_of_mem_standard (hs : shape ∈ standard.shapes.shapes) :
    standard.shapes.get? shape.type = some shape := by
  have hn : (standard.shapes.shapes.map (·.type)).Nodup := by
    rw [standard_eq, List.map_map]
    exact nodup_types
  obtain ⟨found, hfound⟩ : ∃ found, standard.shapes.get? shape.type = some found :=
    Option.isSome_iff_exists.mp (List.find?_isSome.mpr ⟨shape, hs, by simp⟩)
  obtain ⟨hmem, htype⟩ := ShapeRegistry.mem_of_get? hfound
  rw [hfound, List.inj_on_of_nodup_map hn hmem hs htype]

private theorem get?_standard (type : String) :
    standard.shapes.get? type =
        (standardTypes.find? fun entry => entry.1.type = type).map (·.1) ∧
      standard.rules.get? type =
        (standardTypes.find? fun entry => entry.1.type = type).map (·.2) := by
  rw [standard_eq]
  unfold ShapeRegistry.get? RuleRegistry.get?
  dsimp only
  rw [List.find?_map, List.find?_map, Option.map_map]
  exact ⟨rfl, rfl⟩

/-- Every shape of the standard vocabulary has a rule. -/
theorem exists_rule (h : standard.shapes.get? type = some shape) :
    ∃ rule, standard.rules.get? type = some rule ∧ (shape, rule) ∈ standardTypes := by
  obtain ⟨hshapes, hrules⟩ := get?_standard type
  rw [hshapes] at h
  obtain ⟨entry, he, rfl⟩ := Option.map_eq_some_iff.mp h
  exact ⟨entry.2, by rw [hrules, he]; rfl, List.mem_of_find?_eq_some he⟩

/-- Every rule of the standard vocabulary has a shape. -/
theorem exists_shape_of_rule {rule : Rule} (h : standard.rules.get? type = some rule) :
    ∃ shape, standard.shapes.get? type = some shape ∧ (shape, rule) ∈ standardTypes := by
  obtain ⟨hshapes, hrules⟩ := get?_standard type
  rw [hrules] at h
  obtain ⟨entry, he, rfl⟩ := Option.map_eq_some_iff.mp h
  exact ⟨entry.1, by rw [hshapes, he]; rfl, List.mem_of_find?_eq_some he⟩

end Python

private theorem forms_of_mem_standard {shape : Shape}
    (hs : shape ∈ Python.standard.shapes.shapes) :
    shape.Orderly ∧ shape.Declared ∧ shape.Plain ∧ regularForms shape ∧ valuedForms shape := by
  rw [Python.standard_eq] at hs
  obtain ⟨entry, he, rfl⟩ := List.mem_map.mp hs
  exact Python.standardTypes_forms.2 entry he

private theorem regular_of_forms {registry : ShapeRegistry}
    {rooted : Prop} (h : ∀ shape ∈ registry.shapes, regularForms shape) :
    registry.Regular rooted where
  expression shape hs m hout := by
    have hall := (Bool.and_eq_true_iff.mp (h shape hs)).1
    simpa [hout] using List.all_eq_true.mp hall _ (shape.connectorsOf_mem_forms m)
  variant _ shape hs m m' hne hnext := by
    have hvar := (Bool.and_eq_true_iff.mp (h shape hs)).2
    cases hm : shape.mutator with
    | variants field list =>
      rw [hm] at hvar
      simpa [hnext] using List.all_eq_true.mp hvar _ (shape.connectorsOf_mem_forms m')
    | _ => simp [Shape.connectorsOf, hm] at hne

/-- No layout of the standard vocabulary repeats a socket name. -/
theorem Python.standard_distinct : Python.standard.shapes.Distinct := by
  intro shape hs
  obtain ⟨horderly, -⟩ := forms_of_mem_standard hs
  exact horderly.distinct

theorem Python.standard_regular {rooted : Prop} : Python.standard.shapes.Regular rooted := by
  refine regular_of_forms fun shape hs => ?_
  obtain ⟨-, -, -, hregular, -⟩ := forms_of_mem_standard hs
  exact hregular

/-- All shapes of the standard vocabulary are declared consistently. -/
theorem Python.standard_declared : Python.standard.shapes.Declared := by
  refine ⟨Python.standard_distinct, fun shape hs => ?_⟩
  obtain ⟨-, hdeclared, -⟩ := forms_of_mem_standard hs
  exact hdeclared

theorem Python.standard_plain : ∀ shape ∈ Python.standard.shapes.shapes, shape.Plain := by
  intro shape hs
  obtain ⟨-, -, hplain, -⟩ := forms_of_mem_standard hs
  exact hplain

private theorem kind_of_valuedForms {shape : Shape} {m : Mutation} {k : Socket}
    (h : valuedForms shape) (hout : (shape.connectorsOf m).output) (hk : k ∈ shape.layout m) :
    k.kind ≠ .statement := by
  rcases Bool.or_eq_true_iff.mp h with h | h
  · have hno := List.all_eq_true.mp h _ (shape.connectorsOf_mem_forms m)
    simp [hout] at hno
  obtain ⟨hfixed, hmutable⟩ := Bool.and_eq_true_iff.mp h
  rcases List.mem_append.mp hk with hk | hk
  · obtain ⟨spec, hspec, rfl⟩ := List.mem_map.mp hk
    exact of_decide_eq_true (List.all_eq_true.mp hfixed spec hspec)
  · unfold Shape.mutableSockets at hk
    cases hm : shape.mutator with
    | repeats spec =>
      rw [hm] at hk hmutable
      cases m with
      | items n =>
        rcases List.mem_append.mp hk with hk | hk
        · split at hk
          · obtain ⟨label, -, rfl⟩ := List.mem_map.mp hk
            nofun
          · cases hk
        · obtain ⟨i, -, hk⟩ := List.mem_flatMap.mp hk
          obtain ⟨j, hj, rfl⟩ := List.mem_mapIdx.mp hk
          exact of_decide_eq_true (List.all_eq_true.mp hmutable _ (List.getElem_mem hj))
      | _ => cases hk
    | branches => simp [hm] at hmutable
    | fixed => simp [hm] at hk
    | variants field list => simp [hm] at hk

/-- An expression has no socket for statements. -/
theorem Python.standard_valued {shape : Shape} (hs : shape ∈ Python.standard.shapes.shapes)
    {m : Mutation} (hout : (shape.connectorsOf m).output) {k : Socket} (hk : k ∈ shape.layout m) :
    k.kind ≠ .statement := by
  obtain ⟨-, -, -, -, hvalued⟩ := forms_of_mem_standard hs
  exact kind_of_valuedForms hvalued hout hk

/-- No number is taken for a list. -/
theorem Python.standard_list {shape number : Shape} {m m' : Mutation} {k : Socket}
    (hs : Python.standard.shapes.get? "lists_get_index" = some shape)
    (hn : Python.standard.shapes.get? "math_number" = some number) (hk : k ∈ shape.layout m)
    (hname : k.name = "VALUE") : ¬ k.takes (number.connectorsOf m') := by
  have hforms : (∀ s ∈ Python.standard.shapes.get? "lists_get_index",
      (match s.mutator with | .variants _ _ => true | _ => false) = true ∧
        ∀ spec ∈ s.sockets, spec.name = "VALUE" → spec.accepts = some ["Array"] ∧ spec.kind = .value) ∧
      ∀ s ∈ Python.standard.shapes.get? "math_number",
        s.mutator = .fixed ∧ s.connectors.types = some ["Number"] := by
    rw [Python.standard_eq]
    decide +kernel
  obtain ⟨hlist, hnumber⟩ := hforms
  obtain ⟨hvariants, hsockets⟩ := hlist shape hs
  obtain ⟨hfixed, htypes⟩ := hnumber number hn
  have hmutable : shape.mutableSockets m = [] := by
    unfold Shape.mutableSockets
    split
    · simp_all
    · simp_all
    · rfl
  rw [Shape.layout, hmutable, List.append_nil] at hk
  obtain ⟨spec, hspec, rfl⟩ := List.mem_map.mp hk
  obtain ⟨haccepts, hkind⟩ := hsockets spec hspec hname
  have hconn : number.connectorsOf m' = number.connectors := by
    unfold Shape.connectorsOf
    rw [hfixed]
  simp [Socket.takes, SocketSpec.instantiate, haccepts, hkind, hconn, htypes, typesFit]

end BlockProgram
