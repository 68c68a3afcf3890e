import BlockProgram.Proofs.Python.Generate
import BlockProgram.Proofs.Python.Unknown

/-! Which faulty blocks a run reports. It goes on after a faulty block, with a placeholder for its text, but
most rules find their block faulty before they ask for what is in its sockets, and then the run does not
come there. -/
namespace BlockProgram.Python

open Workspace Recipe

/-- The block is plugged in, however deep, beneath one whose rule gives up before it asks for anything. -/
def Hidden (w : Workspace) (x : BlockId) : Prop :=
  ∃ p b s c, w.find? p = some b ∧ Blind b ∧ w.parent? c = some (.input p s) ∧ w.Under c x

/-- The blocks that the rule of the block of an id asks for before it ends or gives up. -/
def callsMade (w : Workspace) (id : BlockId) : List BlockId :=
  (w.find? id).toList.flatMap fun b => if Blind b then [] else calls w b

def GenerationError.faults : GenerationError → List BlockFault
  | .fault f => [f]
  | .invalidBlocks list => list
  | _ => []

variable {w : Workspace} {p c d x id : BlockId} {b : Block} {s : String} {n : Nat}

private theorem hidden_of_encloses (he : w.Encloses p s d) :
    Hidden w d ↔ Hidden w p ∨ ∃ b, w.find? p = some b ∧ Blind b := by
  induction he with
  | @input d hp =>
    constructor
    · rintro ⟨q, b, t, c, hb, hblind, hc, hu⟩
      cases hu with
      | self =>
        obtain ⟨rfl, -⟩ := Attachment.input.inj (Option.some.inj (hc.symm.trans hp))
        exact .inr ⟨b, hb, hblind⟩
      | step hp' hu =>
        obtain rfl := Option.some.inj (hp'.symm.trans hp)
        exact .inl ⟨q, b, t, c, hb, hblind, hc, hu⟩
    · rintro (⟨q, b, t, c, hb, hblind, hc, hu⟩ | ⟨b, hb, hblind⟩)
      · exact ⟨q, b, t, c, hb, hblind, hc, .step hp hu⟩
      · exact ⟨p, b, s, d, hb, hblind, hp, .self⟩
  | @next d e hp _ ih =>
    rw [← ih]
    constructor
    · rintro ⟨q, b, t, c, hb, hblind, hc, hu⟩
      cases hu with
      | self => cases hc.symm.trans hp
      | step hp' hu =>
        obtain rfl := Option.some.inj (hp'.symm.trans hp)
        exact ⟨q, b, t, c, hb, hblind, hc, hu⟩
    · rintro ⟨q, b, t, c, hb, hblind, hc, hu⟩
      exact ⟨q, b, t, c, hb, hblind, hc, .step hp hu⟩

private theorem exists_encloses (hp : w.parent? c = some (.input p s)) (hu : w.Under c x) :
    ∃ p s, w.Encloses p s x := by
  induction hu with
  | self => exact ⟨p, s, .input hp⟩
  | @step x place hx _ ih =>
    cases place with
    | input q t => exact ⟨q, t, .input hx⟩
    | next q =>
      obtain ⟨p, s, he⟩ := ih
      exact ⟨p, s, .next hx he⟩

private theorem mem_callsMade (hb : w.find? p = some b) :
    c ∈ callsMade w p ↔ c ∈ callsOf w p ∧ ¬ Blind b := by
  unfold callsMade
  rw [callsOf_eq hb, hb, Option.toList_some, List.flatMap_singleton]
  split <;> simp_all

private theorem callsMade_sublist (w : Workspace) (p : BlockId) :
    (callsMade w p).Sublist (callsOf w p) := by
  unfold callsMade callsOf
  cases w.find? p with
  | none => exact .refl _
  | some b =>
    simp only [Option.toList_some, List.flatMap_singleton]
    split
    · exact List.nil_sublist _
    · exact .refl _

private theorem Tree.of_sublist {next next' : BlockId → List BlockId} (h : Tree next)
    (hsub : ∀ p, (next' p).Sublist (next p)) : Tree next' where
  nodup p := (hsub p).nodup (h.nodup p)
  unique hc hc' := h.unique ((hsub _).subset hc) ((hsub _).subset hc')
  acyclic hc hback := h.acyclic ((hsub _).subset hc) (hback.mono fun p => (hsub p).subset)

private theorem isExpression_placeholder (b : Block) :
    (placeholder b).isExpression = b.connectors.output := by
  unfold placeholder
  cases b.connectors.output <;> rfl

section sound

variable (h : Sound True True w)
include h

/-- A run comes to the blocks that are reached and not hidden. -/
theorem within_callsMade (hc : c ∈ tops w) :
    Within (callsMade w) c x n ↔ Within (callsOf w) c x n ∧ ¬ Hidden w x := by
  have htop : ¬ Hidden w c := by
    rintro ⟨q, b, t, e, -, -, hp, hu⟩
    obtain ⟨p, s, he⟩ := exists_encloses hp hu
    exact (nested_of_mem_tops h hc).not_encloses he
  have hcall {p d : BlockId} (hd : d ∈ callsOf w p) : ∃ b, w.find? p = some b ∧
      (Hidden w d ↔ Hidden w p ∨ Blind b) := by
    obtain ⟨b, hb, -⟩ := mem_callsOf.mp hd
    obtain ⟨s, he⟩ := encloses_of_mem_callsOf h hd
    refine ⟨b, hb, (hidden_of_encloses he).trans (or_congr_right ?_)⟩
    simp [hb]
  constructor
  · intro hx
    refine ⟨hx.mono fun p => (callsMade_sublist w p).subset, ?_⟩
    induction hx with
    | self => exact htop
    | @call p d n _ hd ih =>
      obtain ⟨b, hb, hhidden⟩ := hcall ((callsMade_sublist w p).subset hd)
      rw [hhidden, not_or]
      exact ⟨ih, ((mem_callsMade hb).mp hd).2⟩
  · rintro ⟨hx, hnot⟩
    induction hx with
    | self => exact .self
    | @call p d n _ hd ih =>
      obtain ⟨b, hb, hhidden⟩ := hcall hd
      rw [hhidden, not_or] at hnot
      exact .call (ih hnot.1) ((mem_callsMade hb).mpr ⟨hd, hnot.2⟩)

/-- Every block gives a text of its own kind, a faulty one a placeholder. -/
private def ownFault (w : Workspace) : Expectation :=
  { ownKind w with fault := fun id => (w.find? id).bind unknown? }

omit h in
private theorem kept_rechosen {shape other : Shape} {rule : Rule} {indent : String}
    (hs : other ∈ standard.shapes.shapes) (hr : shape.Rechosen other)
    (hrule : (other, rule) ∈ standardTypes) (hb : w.find? id = some b)
    (hformed : Formed shape (ownFault w).answers w b) (hshows : shape.Shows b.mutation b.fields)
    (hconn : b.connectors = shape.connectorsOf b.mutation) :
    (ownFault w).Kept ⟨w, indent⟩ b id (rule b) (callsMade w id) := by
  have hcalls : callsMade w id = if Blind b then [] else calls w b := by
    unfold callsMade
    rw [hb, Option.toList_some, List.flatMap_singleton]
  have hfault : (ownFault w).fault id = unknown? b := by
    unfold ownFault
    simp [hb]
  have hown {f : Fragment} (hf : f.isExpression = b.connectors.output) :
      (ownFault w).answers.fragment id f := by
    intro d hd
    obtain rfl : b = d := Option.some.inj (hb.symm.trans hd)
    exact hf
  unfold Expectation.Kept
  rw [hfault, hcalls]
  cases hu : unknown? b with
  | none =>
    have hother := hformed.rechosen hs hr hshows hu
    have hsame : b.connectors = other.connectorsOf b.mutation :=
      hconn.trans (hr.connectorsOf_eq hformed.accepts hother.accepts)
    rw [if_neg (not_blind hu)]
    refine (serves_standard (other, rule) hrule (s := ⟨w, indent⟩) hother).mono ?_
    rintro f rest ⟨hrest, hkind, -⟩
    exact ⟨hrest, hown (hkind.trans (congrArg Connectors.output hsame.symm))⟩
  | some fault =>
    exact ⟨givesUp_unknown hs hr hformed hshows hu hrule, hown (isExpression_placeholder b)⟩

private theorem served_rechosen (hr : Rechosen w.shapes) (hv : ∀ b ∈ w.blocks, Valid w.shapes b)
    (indent : String) :
    Served standard.rules ⟨w, indent⟩ (ownFault w) (callsMade w) fun id => w.has id where
  tree := (tree_callsOf h).of_sublist (callsMade_sublist w)
  closed _ hc := by
    obtain ⟨s, he⟩ := encloses_of_mem_callsOf h ((callsMade_sublist w _).subset hc)
    exact he.has
  serves id hid := by
    obtain ⟨b, hb⟩ := has_iff.mp hid
    obtain ⟨shape, hshape, haccepts, hfills, hshows⟩ := hv b (mem_of_find? hb).1
    obtain ⟨hmem, htype⟩ := ShapeRegistry.mem_of_get? hshape
    obtain ⟨other, hother, hrechosen⟩ := hr.shapes shape hmem
    rw [htype] at hother
    obtain ⟨rule, hrule, hentry⟩ := exists_rule hother
    obtain ⟨shape', hshape', hlayout, hconn⟩ := h.shaped id b.bare (Workspace.bare?_of_find? hb)
    obtain rfl : shape = shape' := Option.some.inj (hshape.symm.trans hshape')
    have hformed : Formed shape (ownFault w).answers w b :=
      formed_of_slots h hr.registry_declared (fun _ _ hf => hf) hb htype.symm
        (Shape.slots_of_layout hlayout) haccepts hfills
    exact ⟨b, rule, hb, hrule,
      kept_rechosen (ShapeRegistry.mem_of_get? hother).1 hrechosen hentry hb hformed hshows hconn⟩
  variableName _ _ _ := ⟨trivial, trivial⟩
  distinct _ _ _ := ⟨trivial, trivial⟩

private theorem outcome_rechosen (hr : Rechosen w.shapes) (hv : ∀ b ∈ w.blocks, Valid w.shapes b)
    {g : Generator} (hg : g.rules = standard.rules) :
    Outcome (ownFault w) (callsMade w) maxDepth (tops w) { names := userNames w }
      (List.Forall₂ (fun r code => Statements (ownFault w).answers (w.chain r) code)
        (Generator.roots w)) (g.outcome w) :=
  outcome_of_declared h hr.registry_declared (fun _ _ hf => hf) (hg ▸ served_rechosen h hr hv _)
    (fun p => (callsMade_sublist w p).subset)
    (fun _ hc => has_of_mem_tops h hr.registry_declared hc) trivial

end sound

private theorem preflight_rechosen (hr : Rechosen w.shapes) (hv : ∀ b ∈ w.blocks, Valid w.shapes b)
    (indent : Nat) : (standard.generator indent).preflight w = .ok () := by
  refine Generator.preflight_of_rules fun b hb => ?_
  obtain ⟨shape, hshape, -⟩ := hv b hb
  obtain ⟨hmem, htype⟩ := ShapeRegistry.mem_of_get? hshape
  obtain ⟨other, hother, -⟩ := hr.shapes shape hmem
  obtain ⟨rule, hrule, -⟩ := exists_rule hother
  rw [Vocabulary.generator_rules, ← htype]
  exact ⟨rule, hrule⟩

private theorem faults_of_finish {p : Progress} {code : String} {e : GenerationError}
    (he : finish p code = .error e) : e.faults = p.faults := by
  unfold finish at he
  split at he
  · cases he
  · rename_i hone
    cases he
    exact hone.symm
  · cases he
    rfl

private theorem faults_of_ran {p' : Progress} {names : Names} (h : Sound True True w)
    (hran : Ran (ownFault w).fault (callsMade w) maxDepth (tops w) { names } p') :
    (p'.faults.map (·.block)).Nodup ∧ ∀ fault, fault ∈ p'.faults ↔
      ∃ x b, Reached w x ∧ ¬ Hidden w x ∧ w.find? x = some b ∧ unknown? b = some fault := by
  obtain ⟨new, hvisited, hnodup, hnew⟩ := hran.visited
  obtain ⟨found, hfound, hperm⟩ := hran.noted
  have hfaults : p'.faults.Perm (new.filterMap (ownFault w).fault) := by
    rw [hfound]
    exact hperm new hvisited
  have hfault {x : BlockId} {fault : BlockFault} : (ownFault w).fault x = some fault ↔
      ∃ b, w.find? x = some b ∧ unknown? b = some fault := Option.bind_eq_some_iff
  have hcome (x : BlockId) : x ∈ new ↔ Reached w x ∧ ¬ Hidden w x := by
    rw [hnew, reached_iff h]
    constructor
    · rintro ⟨c, hc, n, hn⟩
      obtain ⟨hn, hhidden⟩ := (within_callsMade h hc).mp hn
      exact ⟨⟨c, hc, n, hn⟩, hhidden⟩
    · rintro ⟨⟨c, hc, n, hn⟩, hhidden⟩
      exact ⟨c, hc, n, (within_callsMade h hc).mpr ⟨hn, hhidden⟩⟩
  constructor
  · rw [(hfaults.map _).nodup_iff, List.map_filterMap]
    refine hnodup.filterMap fun x y id hx hy => ?_
    have hown {z : BlockId} (hz : id ∈ ((ownFault w).fault z).map (·.block)) : z = id := by
      obtain ⟨fault, hnoted, rfl⟩ := Option.map_eq_some_iff.mp hz
      obtain ⟨b, hb, hu⟩ := hfault.mp hnoted
      exact (mem_of_find? hb).2.symm.trans (block_of_unknown? hu).symm
    exact (hown hx).trans (hown hy).symm
  · intro fault
    rw [hfaults.mem_iff, List.mem_filterMap]
    simp only [hcome, hfault]
    constructor
    · rintro ⟨x, ⟨hx, hhidden⟩, b, hb, hu⟩
      exact ⟨x, b, hx, hhidden, hb, hu⟩
    · rintro ⟨x, b, hx, hhidden, hb, hu⟩
      exact ⟨x, ⟨hx, hhidden⟩, b, hb, hu⟩

/-- Over shapes of the standard vocabulary with other choices in their dropdowns, a failure because of faulty
blocks names exactly those blocks with an unknown value that are reached and not hidden, each once and with
the value. -/
theorem reported_iff {registry : ShapeRegistry} (hr : Rechosen registry)
    (hw : Workspace.Reached registry w) (hs : Sound True True w) {indent : Nat} {e : GenerationError}
    (he : (standard.generator indent).generate w = .error e) (hfaults : e.faults ≠ []) :
    (e.faults.map (·.block)).Nodup ∧ ∀ fault, fault ∈ e.faults ↔
      ∃ x b, Reached w x ∧ ¬ Hidden w x ∧ w.find? x = some b ∧ unknown? b = some fault := by
  have hv := hw.valid hr.registry_declared
  obtain rfl := hv.shapes
  have hout := outcome_rechosen hs hr hv.blocks (standard.generator_rules indent)
  rw [Generator.generate_eq, preflight_rechosen hr hv.blocks] at he
  cases hrun : (standard.generator indent).outcome w with
  | mk result p =>
    rw [hrun] at hout
    simp only [Except.bind, hrun] at he
    cases result with
    | ok codes =>
      obtain ⟨-, -, hran⟩ := hout
      rw [faults_of_finish he]
      exact faults_of_ran hs hran
    | error error =>
      obtain ⟨⟨x, rfl⟩, -⟩ := hout
      cases he
      exact (hfaults rfl).elim

/-- Arithmetic with a remainder, which its rule does not know. -/
def moduloShape : Shape :=
  { type := "math_arithmetic", connectors := .expressionOf ["Number"]
    fields := [.dropdown "OP" ["MOD", "ADD"]]
    sockets := [.accepting ["Number"] (.value "A"), .accepting ["Number"] (.value "B")] }

/-- Elements of lists with a mode that their rule does not know. -/
def lookupShape : Shape :=
  { type := "lists_get_index", connectors := .expression
    fields := [.dropdown "MODE" ("LOOK" :: Rules.indexModes), .dropdown "WHERE" Rules.indexPlaces]
    sockets := [.labelled "in list" (.accepting ["Array"] (.value "VALUE")),
      .accepting ["Number"] (.value "AT")]
    mutator := .variants "MODE" [⟨"LOOK", .expression⟩, ⟨"GET", .expression⟩,
      ⟨"GET_REMOVE", .expression⟩, ⟨"REMOVE", .statement⟩] }

private theorem rechosen_modulo : Rechosen (standard.shapes.register moduloShape) := by
  have hother : ∃ other ∈ standard.shapes.shapes, moduloShape.unchosen = other.unchosen := by
    rw [standard_eq]
    decide
  obtain ⟨other, hother, hunchosen⟩ := hother
  refine rechosen_standard.register (by decide) hother ⟨hunchosen, fun name ha => ?_⟩
  cases ha

private theorem rechosen_lookup :
    Rechosen ((standard.shapes.register moduloShape).register lookupShape) := by
  have hother : ∃ other ∈ standard.shapes.shapes, lookupShape.unchosen = other.unchosen ∧
      ∀ name ∈ ["LOOK", "GET", "GET_REMOVE", "REMOVE"], other.accepts (.variant name) →
        lookupShape.connectorsOf (.variant name) = other.connectorsOf (.variant name) := by
    rw [standard_eq]
    decide
  obtain ⟨other, hother, hunchosen, hconnectors⟩ := hother
  refine rechosen_modulo.register (by decide) hother ⟨hunchosen, fun name ha => ?_⟩
  exact hconnectors name (of_decide_eq_true ha)

/-- An element with an unknown mode, at an index with an unknown operator, is reported along with the
index, whose own operand is hidden. -/
theorem reported_iff_of_late :
    let registry := (standard.shapes.register moduloShape).register lookupShape
    let w := [Action.add ⟨"print"⟩ "text_print" false, .add ⟨"look"⟩ "lists_get_index" false,
      .connectValue ⟨"print"⟩ "TEXT" ⟨"look"⟩, .add ⟨"index"⟩ "math_arithmetic" false,
      .connectValue ⟨"look"⟩ "AT" ⟨"index"⟩, .add ⟨"operand"⟩ "math_arithmetic" false,
      .connectValue ⟨"index"⟩ "A" ⟨"operand"⟩].foldl Action.apply (.empty registry)
    let list : List BlockFault := [.invalidField ⟨"index"⟩ "math_arithmetic" "OP" "MOD",
      .invalidField ⟨"look"⟩ "lists_get_index" "MODE" "LOOK"]
    Rechosen registry ∧ Workspace.Reached registry w ∧ Sound True True w ∧
      (standard.generator 4).generate w = .error (.invalidBlocks list) ∧
      (∀ fault, fault ∈ list ↔
        ∃ x b, Reached w x ∧ ¬ Hidden w x ∧ w.find? x = some b ∧ unknown? b = some fault) ∧
      Hidden w ⟨"operand"⟩ := by
  intro registry w list
  have hr : Rechosen registry := rechosen_lookup
  have hw : Attained registry w := .inl (Edited.empty.run _)
  have hs := hw.sound hr.registry_declared
  have he : (standard.generator 4).generate w = .error (.invalidBlocks list) := by decide +kernel
  have hindex : ∃ b, w.find? ⟨"index"⟩ = some b ∧ Blind b := by decide +kernel
  obtain ⟨b, hb, hblind⟩ := hindex
  exact ⟨hr, hw.reached, hs, he, (reported_iff hr hw.reached hs he (by nofun)).2, ⟨"index"⟩, b, "A",
    ⟨"operand"⟩, hb, hblind, by decide +kernel, .self⟩

/-- A remainder in the socket of a remainder is not reported. -/
theorem nested_unreported :
    let registry := standard.shapes.register moduloShape
    let w := [Action.add ⟨"#1"⟩ "text_print" false, .add ⟨"#2"⟩ "math_arithmetic" false,
      .add ⟨"#3"⟩ "math_arithmetic" false, .connectValue ⟨"#1"⟩ "TEXT" ⟨"#2"⟩,
      .connectValue ⟨"#2"⟩ "A" ⟨"#3"⟩].foldl Action.apply (.empty registry)
    Rechosen registry ∧ Edited registry w ∧
      (standard.generator 4).generate w =
        .error (.fault (.invalidField ⟨"#2"⟩ "math_arithmetic" "OP" "MOD")) ∧
      Reached w ⟨"#3"⟩ ∧ (w.find? ⟨"#3"⟩).bind unknown? =
        some (.invalidField ⟨"#3"⟩ "math_arithmetic" "OP" "MOD") := by
  intro registry w
  have hw : Edited registry w := Edited.empty.run _
  have hs := Attained.sound rechosen_modulo.registry_declared (.inl hw)
  have htop : ⟨"#1"⟩ ∈ tops w := by decide +kernel
  have hfirst : ⟨"#2"⟩ ∈ callsOf w ⟨"#1"⟩ := by decide +kernel
  have hsecond : ⟨"#3"⟩ ∈ callsOf w ⟨"#2"⟩ := by decide +kernel
  refine ⟨rechosen_modulo, hw, by decide +kernel, ?_, by decide +kernel⟩
  exact (reached_iff hs).mpr ⟨_, htop, 2, .call (.call .self hfirst) hsecond⟩

end BlockProgram.Python
