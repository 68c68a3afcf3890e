import BlockProgram.Proofs.Python.Rules
import BlockProgram.Proofs.Python.Run
import BlockProgram.Proofs.Python.Vocabulary
import BlockProgram.Proofs.Shape.Choices

/-! Values in dropdowns that a rule does not know. Most rules look at their dropdowns before they ask for
what is in the sockets of the block, and give up without asking; the rule of an element looks at its mode
at the end. -/
namespace BlockProgram.Python

open Recipe

def BlockFault.block : BlockFault → BlockId
  | .missingField block _ _ => block
  | .invalidField block _ _ _ => block
  | .unexpectedMutation block _ _ => block

/-- The dropdowns that the rule of a type reads before it asks for what is in the sockets, with the values
that it knows. -/
def early (type : String) : List (String × List String) :=
  match type with
  | "logic_boolean" => [("BOOL", ["TRUE", "FALSE"])]
  | "math_arithmetic" => [("OP", Rules.arithmeticNames)]
  | "math_single" => [("OP", Rules.singleNames)]
  | "logic_compare" => [("OP", Rules.compareNames)]
  | "logic_operation" => [("OP", Rules.logicNames)]
  | "controls_whileUntil" => [("MODE", ["WHILE", "UNTIL"])]
  | "lists_get_index" => [("WHERE", Rules.indexPlaces)]
  | _ => []

/-- Those that it reads after that. -/
def late (type : String) : List (String × List String) :=
  match type with
  | "lists_get_index" => [("MODE", Rules.indexModes)]
  | _ => []

private theorem early_element : early "lists_get_index" = [("WHERE", Rules.indexPlaces)] := rfl

private theorem late_element : late "lists_get_index" = [("MODE", Rules.indexModes)] := rfl

/-- The fault of a value that is none of the known ones. -/
def flaw? (b : Block) (entry : String × List String) : Option BlockFault :=
  match b.field? entry.1 with
  | some (.choice s) => if s ∈ entry.2 then none else some (.invalidField b.id b.type entry.1 s)
  | _ => none

/-- The fault of the first value that the rule of a block does not know. -/
def unknown? (b : Block) : Option BlockFault := (early b.type ++ late b.type).findSome? (flaw? b)

/-- The rule of the block gives up before it asks for anything. -/
def Blind (b : Block) : Prop := ∃ entry ∈ early b.type, (flaw? b entry).isSome

instance (b : Block) : Decidable (Blind b) :=
  inferInstanceAs (Decidable (∃ entry ∈ early b.type, (flaw? b entry).isSome))

variable {b : Block} {name type s : String} {known : List String} {fault : BlockFault}
  {entry : String × List String} {rule : Rule} {shape other : Shape}

theorem flaw?_eq_some : flaw? b entry = some fault ↔ ∃ s, b.field? entry.1 = some (.choice s) ∧
    s ∉ entry.2 ∧ fault = .invalidField b.id b.type entry.1 s := by
  unfold flaw?
  split
  · rename_i s hv
    rw [hv]
    by_cases hs : s ∈ entry.2
    · simp [hs]
    · simp [hs, eq_comm]
  · rename_i hv
    simp only [reduceCtorEq, false_iff, not_exists, not_and]
    exact fun s hs => (hv s hs).elim

private theorem flaw?_eq_none : flaw? b entry = none ↔
    ∀ s, b.field? entry.1 = some (.choice s) → s ∈ entry.2 := by
  unfold flaw?
  split
  · rename_i s hv
    rw [hv]
    by_cases hs : s ∈ entry.2 <;> simp [hs]
  · rename_i hv
    exact iff_of_true rfl fun s hs => (hv s hs).elim

/-- A block has no fault exactly if all choices that its rule looks at are known. -/
theorem unknown?_eq_none : unknown? b = none ↔ ∀ entry ∈ early b.type ++ late b.type, ∀ s,
    b.field? entry.1 = some (.choice s) → s ∈ entry.2 := by
  unfold unknown?
  rw [List.findSome?_eq_none_iff]
  exact forall₂_congr fun entry _ => flaw?_eq_none

theorem not_blind (h : unknown? b = none) : ¬ Blind b := by
  rintro ⟨entry, he, hflaw⟩
  have hnone := List.findSome?_eq_none_iff.mp h entry (List.mem_append_left _ he)
  simp [hnone] at hflaw

theorem block_of_unknown? (h : unknown? b = some fault) : fault.block = b.id := by
  obtain ⟨entry, -, hflaw⟩ := List.exists_of_findSome?_eq_some h
  obtain ⟨s, -, -, rfl⟩ := flaw?_eq_some.mp hflaw
  rfl

private theorem choice_eq_fail (h : flaw? b (name, known) = some fault) :
    Recipe.choice b name known = .fail (.fault fault) := by
  obtain ⟨s, hv, hs, rfl⟩ := flaw?_eq_some.mp h
  have hfield : field b name = .done (.choice s) := by
    unfold field
    rw [hv]
  unfold Recipe.choice
  rw [hfield]
  change (if s ∈ known then pure s else invalid b name (.choice s)) = _
  rw [if_neg hs]
  rfl

/-- The rule gives up on a block in which it finds a value that it does not know before it asks for
anything. -/
def Alert (shape : Shape) (rule : Rule) : Prop :=
  ∀ b : Block, b.type = shape.type →
    (∀ name list, shape.mutator = .variants name list → ∃ variant, b.mutation = .variant variant) →
    ∀ entry ∈ early b.type, ∀ fault, flaw? b entry = some fault → rule b = .fail (.fault fault)

private theorem alert_of_nil (h : early shape.type = []) : Alert shape rule := by
  intro b htype _ entry he
  rw [htype, h] at he
  cases he

private theorem alert_of_choice {f : Block → String → Recipe Fragment}
    (h : early shape.type = [(name, known)])
    (hrule : ∀ b, rule b = Recipe.choice b name known >>= f b) : Alert shape rule := by
  intro b htype _ entry he fault hflaw
  rw [htype, h] at he
  obtain rfl := List.mem_singleton.mp he
  rw [hrule, choice_eq_fail hflaw]
  rfl

private theorem alert_element {list : List VariantSpec} (htype : shape.type = "lists_get_index")
    (hm : shape.mutator = .variants name list) : Alert shape Rules.element := by
  intro b hb hvariant entry he fault hflaw
  rw [hb, htype] at he
  obtain rfl := List.mem_singleton.mp he
  obtain ⟨mode, hmode⟩ := hvariant name list hm
  have hmode : variant b = .done mode := by
    unfold variant
    rw [hmode]
  unfold Rules.element
  rw [hmode, choice_eq_fail hflaw]
  rfl

private theorem alert_standard : ∀ entry ∈ standardTypes, Alert entry.1 entry.2 := by
  simp only [standardTypes, List.forall_mem_append]
  refine ⟨⟨⟨⟨⟨?_, ?_⟩, ?_⟩, ?_⟩, ?_⟩, ?_⟩
  · simp only [Rules.values, List.forall_mem_cons]
    exact ⟨alert_of_nil rfl, alert_of_nil rfl, alert_of_choice rfl fun _ => rfl, alert_of_nil rfl,
      alert_of_nil rfl, List.forall_mem_nil _⟩
  · simp only [Rules.operators, List.forall_mem_cons]
    exact ⟨alert_of_choice rfl fun _ => rfl, alert_of_choice rfl fun _ => rfl,
      alert_of_choice rfl fun _ => rfl, alert_of_choice rfl fun _ => rfl, alert_of_nil rfl,
      List.forall_mem_nil _⟩
  · simp only [Rules.collections, List.forall_mem_cons]
    exact ⟨alert_of_nil rfl, alert_of_nil rfl, alert_of_nil rfl, alert_element rfl rfl,
      alert_of_nil rfl, List.forall_mem_nil _⟩
  · simp only [Rules.assignment, List.forall_mem_cons]
    exact ⟨alert_of_nil rfl, List.forall_mem_nil _⟩
  · simp only [Rules.control, List.forall_mem_cons]
    exact ⟨alert_of_nil rfl, alert_of_nil rfl, alert_of_choice rfl fun _ => rfl, alert_of_nil rfl,
      alert_of_nil rfl, alert_of_nil rfl, List.forall_mem_nil _⟩
  · simp only [Rules.program, List.forall_mem_cons]
    exact ⟨alert_of_nil rfl, List.forall_mem_nil _⟩

/-- The rule of an element has asked for what is in the sockets when it finds a mode that it does not
know. -/
theorem givesUp_element {st : Setting} {A : Answers} {mode place : String}
    (htype : shape.type = "lists_get_index")
    (hs : ∀ m, shape.slots m = [("VALUE", .value), ("AT", .value)])
    (h : Formed shape A st.workspace b) (hb : b.mutation = .variant mode)
    (hmode : mode ∉ Rules.indexModes) (hchoice : b.field? "WHERE" = some (.choice place))
    (hplace : place ∈ Rules.indexPlaces) :
    GivesUp st A (.invalidField b.id b.type "MODE" mode) (Rules.element b) (calls st.workspace b) := by
  refine ⟨_, elementParts b, _, element_eq b,
    (ensures_elementParts htype hs h hb hchoice hplace).mono ?_⟩
  rintro ⟨_, list, index⟩ rest ⟨hrest, rfl, -, -⟩
  refine ⟨hrest, ?_⟩
  dsimp only
  split
  · exact (hmode (by simp [Rules.indexModes])).elim
  · exact (hmode (by simp [Rules.indexModes])).elim
  · exact (hmode (by simp [Rules.indexModes])).elim
  · rfl

/-- The shapes of the standard vocabulary, some of them with other choices in their dropdowns. -/
structure Rechosen (registry : ShapeRegistry) : Prop where
  declared : ∀ shape ∈ registry.shapes, shape.Declared
  shapes : ∀ shape ∈ registry.shapes, ∃ other, standard.shapes.get? shape.type = some other ∧
    shape.Rechosen other

variable {registry : ShapeRegistry}

theorem Rechosen.registry_declared (h : Rechosen registry) : registry.Declared := by
  refine ⟨fun shape hs => ?_, h.declared⟩
  obtain ⟨other, hother, hrechosen⟩ := h.shapes shape hs
  exact hrechosen.distinct (standard_distinct other (ShapeRegistry.mem_of_get? hother).1)

/-- The standard vocabulary is one of those with other choices. -/
theorem rechosen_standard : Rechosen standard.shapes where
  declared := standard_declared.shapes
  shapes shape hs := ⟨shape, get?_of_mem_standard hs, .refl shape⟩

/-- Another choice at a time. -/
theorem Rechosen.register (h : Rechosen registry) (hd : shape.Declared)
    (hs : other ∈ standard.shapes.shapes) (hr : shape.Rechosen other) :
    Rechosen (registry.register shape) := by
  have hother : standard.shapes.get? shape.type = some other :=
    hr.type_eq ▸ get?_of_mem_standard hs
  have hmem (s : Shape) (hs : s ∈ (registry.register shape).shapes) :
      s = shape ∨ s ∈ registry.shapes := by
    unfold ShapeRegistry.register at hs
    split at hs
    · obtain ⟨old, hold, rfl⟩ := List.mem_map.mp hs
      split
      · exact .inl rfl
      · exact .inr hold
    · exact (List.mem_append.mp hs).symm.imp List.mem_singleton.mp id
  constructor
  · rintro s hs
    rcases hmem s hs with rfl | hs
    · exact hd
    · exact h.declared s hs
  · rintro s hs
    rcases hmem s hs with rfl | hs
    · exact ⟨other, hother, hr⟩
    · exact h.shapes s hs

/-- The dropdowns of a shape are those that its rule reads, with all values that the rule knows, and only
elements have variants. -/
structure Tabled (shape : Shape) : Prop where
  specs : ∀ entry ∈ early shape.type ++ late shape.type,
    shape.fieldSpec? entry.1 = some (.dropdown entry.1 entry.2)
  choices : ∀ f ∈ shape.fields, ∀ known ∈ f.choices, (f.name, known) ∈ early shape.type ++ late shape.type
  variants : ∀ name ∈ (match shape.mutator with | .variants name _ => some name | _ => none),
    shape.type = "lists_get_index" ∧ name = "MODE" ∧
      ∀ mode ∈ Rules.indexModes, shape.accepts (.variant mode)
  element : shape.type = "lists_get_index" →
    (match shape.mutator with | .variants _ _ => true | _ => false) = true ∧
      shape.sockets.map (fun k => (k.name, k.kind)) = [("VALUE", .value), ("AT", .value)]

instance (shape : Shape) : Decidable (Tabled shape) :=
  decidable_of_iff (_ ∧ _ ∧ _ ∧ _) ⟨fun ⟨hs, hc, hv, he⟩ => ⟨hs, hc, hv, he⟩,
    fun h => ⟨h.specs, h.choices, h.variants, h.element⟩⟩

private theorem tabled_standard (hs : shape ∈ standard.shapes.shapes) : Tabled shape := by
  have hall : ∀ shape ∈ standard.shapes.shapes, Tabled shape := by
    rw [standard_eq]
    decide
  exact hall shape hs

private theorem mem_of_choices {f : FieldSpec} (hs : shape ∈ standard.shapes.shapes)
    (hf : shape.fieldSpec? name = some f) (hk : f.choices = some known) :
    (name, known) ∈ early shape.type ++ late shape.type := by
  have hname : f.name = name := by simpa using List.find?_some hf
  exact hname ▸ (tabled_standard hs).choices f (List.mem_of_find?_eq_some hf) known hk

private theorem element_of_variants {list : List VariantSpec} (hs : shape ∈ standard.shapes.shapes)
    (hm : shape.mutator = .variants name list) : shape.type = "lists_get_index" ∧ name = "MODE" ∧
      ∀ mode ∈ Rules.indexModes, shape.accepts (.variant mode) :=
  (tabled_standard hs).variants name (by rw [hm]; rfl)

private theorem element_standard (hs : shape ∈ standard.shapes.shapes)
    (htype : shape.type = "lists_get_index") :
    shape.fieldSpec? "WHERE" = some (.dropdown "WHERE" Rules.indexPlaces) ∧
      (∃ name list, shape.mutator = .variants name list) ∧
      ∀ m, shape.slots m = [("VALUE", .value), ("AT", .value)] := by
  obtain ⟨hvariants, hsockets⟩ := (tabled_standard hs).element htype
  have hwhere : ("WHERE", Rules.indexPlaces) ∈ early shape.type ++ late shape.type := by
    simp [htype, early_element]
  refine ⟨(tabled_standard hs).specs _ hwhere, ?_⟩
  cases hm : shape.mutator with
  | variants name list =>
    refine ⟨⟨name, list, rfl⟩, fun m => ?_⟩
    unfold Shape.slots Shape.layout Shape.mutableSockets
    simp only [hm, List.append_nil]
    rw [List.map_map]
    exact hsockets
  | _ => simp [hm] at hvariants

private theorem rule_of_element : ∀ entry ∈ standardTypes, entry.1.type = "lists_get_index" →
    entry.2 = Rules.element := by
  simp [standardTypes, Rules.values, Rules.operators, Rules.collections, Rules.assignment,
    Rules.control, Rules.program]

private theorem element_of_mem_late (he : entry ∈ late type) :
    type = "lists_get_index" ∧ entry = ("MODE", Rules.indexModes) := by
  unfold late at he
  split at he
  · exact ⟨rfl, List.mem_singleton.mp he⟩
  · cases he

section block

variable (hs : other ∈ standard.shapes.shapes) (hr : shape.Rechosen other)
include hs hr

/-- A variant of a shape with other choices is a mode of an element. -/
theorem element_of_variant {mode : String} (ha : shape.accepts b.mutation)
    (hshows : shape.Shows b.mutation b.fields) (hb : b.mutation = .variant mode) :
    (∃ list, other.mutator = .variants "MODE" list) ∧ other.type = "lists_get_index" ∧
      b.field? "MODE" = some (.choice mode) ∧
      (mode ∈ Rules.indexModes → other.accepts (.variant mode)) := by
  rw [hb] at ha hshows
  obtain ⟨name, list, hm⟩ : ∃ name list, shape.mutator = .variants name list := by
    unfold Shape.accepts at ha
    cases hm : shape.mutator with
    | variants name list => exact ⟨name, list, rfl⟩
    | _ => simp [hm] at ha
  obtain ⟨list', hm'⟩ := hr.exists_variants hm
  obtain ⟨htype, rfl, hmodes⟩ := element_of_variants hs hm'
  refine ⟨⟨list', hm'⟩, htype, hshows _ _ ?_, hmodes mode⟩
  unfold Shape.mirror
  rw [hm]

variable {st : Setting} {A : Answers}

/-- A block without a value that its rule does not know is one of the standard vocabulary. -/
theorem Formed.rechosen {w : Workspace} (h : Formed shape A w b)
    (hshows : shape.Shows b.mutation b.fields) (hu : unknown? b = none) : Formed other A w b := by
  have htype : b.type = other.type := h.type.trans hr.type_eq
  have hknown := unknown?_eq_none.mp hu
  rw [htype] at hknown
  refine ⟨htype, h.sockets.trans (hr.slots_eq _), h.names, ?_, ?_, h.values, h.statements⟩
  · refine hr.accepts h.accepts fun mode hb => ?_
    obtain ⟨-, helement, hfield, haccepts⟩ := element_of_variant hs hr h.accepts hshows hb
    have hmode : ("MODE", Rules.indexModes) ∈ early other.type ++ late other.type := by
      simp [helement, early_element, late_element]
    rw [hb]
    exact haccepts (hknown _ hmode mode hfield)
  · refine hr.fills h.fills fun name f hspec known hchoices s hv => ?_
    exact hknown _ (mem_of_choices hs hspec hchoices) s hv

omit hs in
private theorem exists_variant (h : Formed shape A st.workspace b) {list : List VariantSpec}
    (hm : other.mutator = .variants name list) : ∃ mode, b.mutation = .variant mode := by
  obtain ⟨list', hm'⟩ := hr.symm.exists_variants hm
  have ha := h.accepts
  unfold Shape.accepts at ha
  rw [hm'] at ha
  cases hb : b.mutation with
  | variant mode => exact ⟨mode, rfl⟩
  | _ => simp [hb] at ha

omit hs in
private theorem givesUp_early (h : Formed shape A st.workspace b)
    (hu : (early b.type).findSome? (flaw? b) = some fault) (hmem : (other, rule) ∈ standardTypes) :
    GivesUp st A fault (rule b) [] := by
  obtain ⟨entry, he, hflaw⟩ := List.exists_of_findSome?_eq_some hu
  have hfail := alert_standard _ hmem b (h.type.trans hr.type_eq)
    (fun _ _ hm => exists_variant hr h hm) entry he fault hflaw
  exact ⟨Unit, pure (), fun _ => .fail (.fault fault), hfail, rfl, rfl⟩

private theorem givesUp_late (h : Formed shape A st.workspace b)
    (hshows : shape.Shows b.mutation b.fields)
    (hknown : (early b.type).findSome? (flaw? b) = none)
    (hu : (late b.type).findSome? (flaw? b) = some fault) (hmem : (other, rule) ∈ standardTypes) :
    GivesUp st A fault (rule b) (calls st.workspace b) := by
  have htype : b.type = other.type := h.type.trans hr.type_eq
  obtain ⟨entry, he, hflaw⟩ := List.exists_of_findSome?_eq_some hu
  obtain ⟨helement, rfl⟩ := element_of_mem_late he
  obtain ⟨mode, hv, hmode, rfl⟩ := flaw?_eq_some.mp hflaw
  obtain ⟨hplaces, ⟨name, list, hm⟩, hslots⟩ := element_standard hs (htype.symm.trans helement)
  obtain ⟨mode', hb⟩ := exists_variant hr h hm
  obtain ⟨-, -, hmirror, -⟩ := element_of_variant hs hr h.accepts hshows hb
  obtain rfl : mode = mode' := by
    rw [hv] at hmirror
    exact FieldValue.choice.inj (Option.some.inj hmirror)
  obtain ⟨place, hplace⟩ := hr.exists_choice h.fills hplaces
  have hwhere : ("WHERE", Rules.indexPlaces) ∈ early b.type := by simp [helement, early_element]
  have hin := flaw?_eq_none.mp (List.findSome?_eq_none_iff.mp hknown _ hwhere) place hplace
  obtain rfl : rule = Rules.element := rule_of_element (other, rule) hmem (htype.symm.trans helement)
  refine givesUp_element (h.type.symm.trans helement) (fun m => ?_) h hb hmode hplace hin
  rw [hr.slots_eq]
  exact hslots m

/-- A block with a value that its rule does not know is given up, at once or after what is in its sockets has
been asked for. -/
theorem givesUp_unknown (h : Formed shape A st.workspace b) (hshows : shape.Shows b.mutation b.fields)
    (hu : unknown? b = some fault) (hmem : (other, rule) ∈ standardTypes) :
    GivesUp st A fault (rule b) (if Blind b then [] else calls st.workspace b) := by
  have hblind : Blind b ↔ ((early b.type).findSome? (flaw? b)).isSome := List.findSome?_isSome_iff.symm
  unfold unknown? at hu
  rw [List.findSome?_append] at hu
  simp only [hblind]
  cases hfirst : (early b.type).findSome? (flaw? b) with
  | some first =>
    rw [hfirst, Option.some_or] at hu
    exact givesUp_early hr h (hfirst.trans hu) hmem
  | none =>
    rw [hfirst, Option.none_or] at hu
    exact givesUp_late hs hr h hshows hfirst hu hmem

end block

end BlockProgram.Python
