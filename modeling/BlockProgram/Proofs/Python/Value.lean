import BlockProgram.Proofs.Python.Expression
import BlockProgram.Proofs.Python.Names
import BlockProgram.Proofs.Python.Run
import BlockProgram.Proofs.Python.Syntax.Unambiguous
import BlockProgram.Proofs.Workspace.Possible

/-! The text of an expression is read as the tree that its blocks stand for, and as nothing else. -/
namespace BlockProgram

def Workspace.isExpression (w : Workspace) (id : BlockId) : Bool :=
  (w.find? id).any (·.connectors.output)

namespace Python

open Syntax Workspace Recipe

variable {w : Workspace} {id c x : BlockId} {b d : Block} {shape : Shape} {root : BlockId} {n m : Nat}
  {levels : Nat} {k : Socket}

theorem isExpression_iff : w.isExpression id ↔ ∃ b, w.find? id = some b ∧ b.connectors.output := by
  unfold Workspace.isExpression
  cases w.find? id <;> simp

theorem used?_eq_some {socket : String} (hu : used? b socket = some c) :
    ¬ Unused b socket ∧ ∃ k ∈ b.sockets, k.name = socket ∧ k.target = some c := by
  unfold used? at hu
  split at hu
  · cases hu
  · rename_i hunused
    obtain ⟨k, hk, ht⟩ := Option.bind_eq_some_iff.mp hu
    exact ⟨hunused, k, List.mem_of_find?_eq_some hk, by simpa using List.find?_some hk, ht⟩

/-- Every expression is a text that says what its block stands for, and variables have the identifiers
that they have in all of the program. -/
def ownTree (w : Workspace) : Expectation where
  answers := ⟨fun c f => (∀ d, w.find? c = some d → f.isExpression = d.connectors.output) ∧
      ∀ code level, f = .expression code level → ∀ e, Denotes w (identifierIn w) c e →
        Spelled e code level,
    fun user name => user ∈ variablesIn w → name = identifierIn w user, fun _ => True⟩
  names := Continues w

section calls

variable (hs : Sound False False w) (hv : Bears standard.shapes (Valid standard.shapes) w)
include hs hv

theorem exists_shape (hb : w.find? id = some b) :
    ∃ shape, standard.shapes.get? b.type = some shape ∧ shape.accepts b.mutation ∧
      shape.Fills b.fields ∧ b.sockets.map Socket.emptied = shape.layout b.mutation ∧
      b.connectors = shape.connectorsOf b.mutation := by
  obtain ⟨shape, hshape, hsockets, hconn⟩ := hs.shaped id b.bare (Workspace.bare?_of_find? hb)
  rw [hv.shapes] at hshape
  obtain ⟨shape', hshape', haccepts, hfills, -⟩ := hv.blocks b (mem_of_find? hb).1
  obtain rfl : shape = shape' := Option.some.inj (hshape.symm.trans hshape')
  exact ⟨shape, hshape, haccepts, hfills, hsockets, hconn⟩

/-- An expression has no socket for statements. -/
theorem kind_of_mem (hb : w.find? id = some b) (hout : b.connectors.output)
    (hk : k ∈ b.sockets) : k.kind ≠ .statement := by
  obtain ⟨shape, hshape, -, -, hsockets, hconn⟩ := exists_shape hs hv hb
  have hlayout : k.emptied ∈ shape.layout b.mutation := hsockets ▸ List.mem_map_of_mem hk
  exact standard_valued (k := k.emptied) (ShapeRegistry.mem_of_get? hshape).1 (hconn ▸ hout) hlayout

/-- The calls of an expression are the blocks in its sockets. -/
theorem callsOf_expression (hb : w.find? id = some b) (hout : b.connectors.output) :
    callsOf w id = b.sockets.filterMap fun k => if Unused b k.name then none else k.target := by
  have hslot (k : Socket) (hk : k ∈ b.sockets) :
      (if Unused b k.name then [] else slotCalls w k.kind k.target) =
        (if Unused b k.name then none else k.target).toList := by
    split
    · rfl
    · unfold slotCalls
      split
      · rfl
      · rename_i hkind
        exact (kind_of_mem hs hv hb hout hk hkind).elim
      · rename_i hkind
        cases ht : k.target with
        | none => rfl
        | some c =>
          obtain ⟨d, -, hplain, -⟩ := exists_target hs hb hk ht
          exact (hplain hkind).elim
  unfold callsOf calls
  rw [hb, Option.toList_some, List.flatMap_singleton, List.flatMap_congr hslot]
  exact (List.filterMap_eq_flatMap_toList _ _).symm

private theorem mem_callsOf_expression (hb : w.find? id = some b) (hout : b.connectors.output) :
    c ∈ callsOf w id ↔ ∃ k ∈ b.sockets, ¬ Unused b k.name ∧ k.target = some c := by
  rw [callsOf_expression hs hv hb hout, List.mem_filterMap]
  refine exists_congr fun k => and_congr_right fun _ => ?_
  split <;> simp_all

private theorem mem_callsOf_of_used {socket : String} (hb : w.find? id = some b)
    (hout : b.connectors.output) (hu : used? b socket = some c) : c ∈ callsOf w id := by
  obtain ⟨hunused, k, hk, rfl, ht⟩ := used?_eq_some hu
  exact (mem_callsOf_expression hs hv hb hout).mpr ⟨k, hk, hunused, ht⟩

private theorem parent?_of_call (hid : w.isExpression id) (hc : c ∈ callsOf w id) :
    ∃ s, w.parent? c = some (.input id s) := by
  obtain ⟨b, hb, hout⟩ := isExpression_iff.mp hid
  obtain ⟨k, hk, -, ht⟩ := (mem_callsOf_expression hs hv hb hout).mp hc
  exact ⟨k.name, parent?_target hs.linked hb hk ht⟩

private theorem nodup_callsOf (hid : w.isExpression id) : (callsOf w id).Nodup := by
  obtain ⟨b, hb, hout⟩ := isExpression_iff.mp hid
  have hnames := List.pairwise_map.mp (hs.linked.socket_names hb)
  rw [callsOf_expression hs hv hb hout]
  refine List.pairwise_filterMap.mpr (hnames.imp_of_mem fun {k k'} hk hk' hne c hc c' hc' => ?_)
  rintro rfl
  have hparent (k : Socket) (hk : k ∈ b.sockets)
      (hc : (if Unused b k.name then none else k.target) = some c) :
      w.parent? c = some (.input id k.name) := by
    split at hc
    · cases hc
    · exact parent?_target hs.linked hb hk hc
  have hsame := Option.some.inj ((hparent k hk hc).symm.trans (hparent k' hk' hc'))
  exact hne (Attachment.input.inj hsame).2

omit hs in
/-- The variable that a block names is one of the workspace. -/
theorem mem_variablesIn (hb : w.find? id = some b) (htype : b.type ∈ variableTypes) {user : String}
    (hfield : b.field? "VAR" = some (.text user)) : user ∈ variablesIn w := by
  have hspecs : ∀ type ∈ variableTypes, ∀ s ∈ standard.shapes.get? type,
      ∃ spec ∈ s.fields, spec.isVariable ∧ spec.name = "VAR" := by
    decide +kernel
  obtain ⟨hmem, -⟩ := mem_of_find? hb
  obtain ⟨shape, hshape, -⟩ := hv.blocks b hmem
  obtain ⟨spec, hspec, hvariable, hn⟩ := hspecs b.type htype shape hshape
  rw [← hv.shapes] at hshape
  exact List.mem_flatMap.mpr ⟨b, hmem, mem_variablesOf hshape hspec hvariable (hn ▸ hfield)⟩

/-- What an element is taken of is no number. -/
theorem isNumber_of_list (hb : w.find? id = some b) (htype : b.type = "lists_get_index")
    (htakes : ∀ k ∈ b.sockets, ∀ c, k.target = some c →
      ∃ d, w.find? c = some d ∧ k.takes d.connectors)
    (hu : used? b "VALUE" = some c) {e : Expr} (he : Denotes w (identifierIn w) c e) :
    e.isNumber = false := by
  obtain ⟨shape, hshape, -, -, hsockets, -⟩ := exists_shape hs hv hb
  obtain ⟨-, k, hk, hname, ht⟩ := used?_eq_some hu
  obtain ⟨d, hd, htakes⟩ := htakes k hk c ht
  obtain ⟨d', trees', hd', -, rfl⟩ := he.exists_trees
  obtain rfl := Option.some.inj (hd.symm.trans hd')
  refine isNumber_blockTree fun hnumber => ?_
  obtain ⟨number, hnumbers, -, -, -, hconn⟩ := exists_shape hs hv hd
  have hlayout : k.emptied ∈ shape.layout b.mutation := hsockets ▸ List.mem_map_of_mem hk
  have htakes : k.emptied.takes (number.connectorsOf d.mutation) := hconn ▸ htakes
  exact standard_list (htype ▸ hshape) (hnumber ▸ hnumbers) hlayout hname htakes

/-- Answers that say the trees of the blocks in the sockets say what the rule of the block needs. -/
theorem answered {A : Answers} {trees : String → Expr} (hb : w.find? id = some b)
    (htakes : ∀ k ∈ b.sockets, ∀ c, k.target = some c →
      ∃ d, w.find? c = some d ∧ k.takes d.connectors)
    (htrees : ∀ socket c, used? b socket = some c → Denotes w (identifierIn w) c (trees socket))
    (hidentifier : ∀ user name, A.identifier user name → user ∈ variablesIn w →
      name = identifierIn w user)
    (hfragment : ∀ c code level, A.fragment c (.expression code level) →
      ∀ e, Denotes w (identifierIn w) c e → Spelled e code level) :
    Answered A (identifierIn w) b trees := by
  refine ⟨fun socket c hu code level hf => hfragment c code level hf _ (htrees socket c hu),
    fun htype user hfield name hname => ?_, fun htype hsome => ?_⟩
  · have hknown := mem_variablesIn hv hb htype hfield
    obtain rfl := hidentifier user name hname hknown
    exact ⟨rfl, (usable_identifierIn hknown).proper⟩
  · obtain ⟨c, hu⟩ := Option.isSome_iff_exists.mp hsome
    exact isNumber_of_list hs hv hb htype htakes hu (htrees "VALUE" c hu)

variable (hfit : w.ValuesFit)
include hfit

private theorem takes_of_call (hb : w.find? id = some b) (hout : b.connectors.output)
    (hk : k ∈ b.sockets) (ht : k.target = some c) :
    ∃ d, w.find? c = some d ∧ d.connectors.output ∧ k.takes d.connectors := by
  obtain ⟨d, hd, hplain, -⟩ := exists_target hs hb hk ht
  have hkind : k.kind = .value := by
    cases hkind : k.kind with
    | value => rfl
    | statement => exact (kind_of_mem hs hv hb hout hk hkind).elim
    | dummy => exact (hplain hkind).elim
  have htakes := hfit b (mem_of_find? hb).1 k hk hkind c ht d hd
  refine ⟨d, hd, ?_, htakes⟩
  simp only [Socket.takes, hkind, Bool.and_eq_true] at htakes
  exact htakes.1

private theorem isExpression_of_within (hroot : w.isExpression root) (hx : Within (callsOf w) root x n) :
    w.isExpression x := by
  induction hx with
  | self => exact hroot
  | call _ hc ih =>
    obtain ⟨b, hb, hout⟩ := isExpression_iff.mp ih
    obtain ⟨k, hk, -, ht⟩ := (mem_callsOf_expression hs hv hb hout).mp hc
    obtain ⟨d, hd, hout', -⟩ := takes_of_call hs hv hfit hb hout hk ht
    exact isExpression_iff.mpr ⟨d, hd, hout'⟩

private theorem tree_expression (hroot : w.isExpression root) (hshallow : Shallow (callsOf w) levels root) :
    Tree (beneath (callsOf w) root) := by
  refine tree_beneath hshallow (fun p n hp => ?_) fun {p q c n m} hp hq hc hc' => ?_
  · exact nodup_callsOf hs hv (isExpression_of_within hs hv hfit hroot hp)
  · obtain ⟨s, hs'⟩ := parent?_of_call hs hv (isExpression_of_within hs hv hfit hroot hp) hc
    obtain ⟨s', hs''⟩ := parent?_of_call hs hv (isExpression_of_within hs hv hfit hroot hq) hc'
    exact (Attachment.input.inj (Option.some.inj (hs'.symm.trans hs''))).1

private theorem formed_expression (hb : w.find? id = some b) (hout : b.connectors.output)
    (hshape : standard.shapes.get? b.type = some shape) : Formed shape (ownTree w).answers w b := by
  obtain ⟨shape', hshape', haccepts, hfills, hsockets, -⟩ := exists_shape hs hv hb
  obtain rfl : shape = shape' := Option.some.inj (hshape.symm.trans hshape')
  refine ⟨(ShapeRegistry.mem_of_get? hshape).2.symm, Shape.slots_of_layout hsockets,
    hs.linked.socket_names hb, haccepts, hfills, fun k hk _ c ht code hf => ?_,
    fun k hk hkind => (kind_of_mem hs hv hb hout hk hkind).elim⟩
  obtain ⟨d, hd, hout', -⟩ := takes_of_call hs hv hfit hb hout hk ht
  have hfalse : false = d.connectors.output := hf.1 d hd
  simp [← hfalse] at hout'

/-- The standard rules give every block beneath an expression a text of its own tree. -/
theorem served_expression (hroot : w.isExpression root)
    (hshallow : Shallow (callsOf w) levels root) (indent : String) :
    Served standard.rules ⟨w, indent⟩ (ownTree w) (beneath (callsOf w) root)
      fun x => ∃ n, Within (callsOf w) root x n where
  tree := tree_expression hs hv hfit hroot hshallow
  closed _ hc := by
    obtain ⟨⟨n, hp⟩, hc⟩ := mem_beneath.mp hc
    exact ⟨n + 1, .call hp hc⟩
  serves id hid := by
    obtain ⟨n, hwithin⟩ := hid
    obtain ⟨b, hb, hout⟩ := isExpression_iff.mp (isExpression_of_within hs hv hfit hroot hwithin)
    obtain ⟨shape, hshape, -, -, -, hconn⟩ := exists_shape hs hv hb
    obtain ⟨rule, hrule, hmem⟩ := exists_rule hshape
    have hcalls : beneath (callsOf w) root id = calls w b := by
      unfold beneath callsOf
      rw [if_pos ⟨n, hwithin⟩, hb, Option.toList_some, List.flatMap_singleton]
    have hserves := serves_standard (shape, rule) hmem
      (s := ⟨w, indent⟩) (formed_expression hs hv hfit hb hout hshape)
    refine ⟨b, rule, hb, hrule, ?_⟩
    rw [hcalls]
    refine hserves.mono fun f rest ⟨hrest, hkind, htext⟩ => ⟨hrest, fun d hd => ?_, ?_⟩
    · obtain rfl : b = d := Option.some.inj (hb.symm.trans hd)
      exact hkind.trans (congrArg Connectors.output hconn.symm)
    · rintro code level rfl e he
      obtain ⟨b', trees, hb', htrees, rfl⟩ := he.exists_trees
      obtain rfl := Option.some.inj (hb.symm.trans hb')
      have htakes (k : Socket) (hk : k ∈ b.sockets) (c : BlockId) (ht : k.target = some c) :
          ∃ d, w.find? c = some d ∧ k.takes d.connectors := by
        obtain ⟨d, hd, -, htakes⟩ := takes_of_call hs hv hfit hb hout hk ht
        exact ⟨d, hd, htakes⟩
      have hanswered : Answered (ownTree w).answers (identifierIn w) b trees :=
        answered hs hv hb htakes htrees (fun _ _ h => h)
          fun c code level hf e he => hf.2 code level rfl e he
      exact hanswered.spelled htext rfl
  variableName user names hn :=
    ⟨fun hu => by rw [hn.variableName_eq hu], hn.variableName⟩
  distinct base names hn := ⟨trivial, hn⟩

end calls

/-- In a place that asks for `bound`, at any point of a run where nothing within an expression has been
visited and which leaves enough levels: the text of the expression is read as one tree and no other, and
that tree is what its blocks stand for. -/
theorem value_reads_tree (hw : Possible standard.shapes w) (hfit : w.ValuesFit) {socket : String}
    (ht : b.target? socket = some c) (hc : w.isExpression c) (hshallow : Shallow (callsOf w) levels c)
    (bound : Precedence) (indent : String) {p : Progress} (hn : Continues w p.names)
    (hfresh : ∀ x n, Within (callsOf w) c x n → x ∉ p.visited) :
    ∃ code e p', (value? b socket bound).run (blockCode standard.rules ⟨w, indent⟩ levels)
        ⟨w, indent⟩ p = (.ok (some code), p') ∧
      (∀ e', Denotes w (identifierIn w) c e' ↔ e' = e) ∧ ∀ e', Parses code e' ↔ e' = e := by
  have hs := hw.sound
  have hv := hw.valid
  obtain ⟨e, he⟩ : ∃ e, Denotes w (identifierIn w) c e := by
    refine exists_denotes hshallow fun x n hx => ?_
    obtain ⟨d, hd, hout⟩ := isExpression_iff.mp (isExpression_of_within hs hv hfit hc hx)
    exact ⟨d, hd, fun socket c hu => mem_callsOf_of_used hs hv hd hout hu⟩
  have hserved := served_expression hs hv hfit hc hshallow indent
  have hpending : Pending (beneath (callsOf w) c) (fun x => ∃ n, Within (callsOf w) c x n) [c] p :=
    .singleton ⟨0, .self⟩ fun x n hx => hfresh x n hx.of_beneath
  let run := (value? b socket bound).run (blockCode standard.rules ⟨w, indent⟩ levels) ⟨w, indent⟩
  have hout : Outcome (ownTree w) (beneath (callsOf w) c) levels [c] p
      (fun v => ∃ code level, v = some (parenthesize code level bound) ∧
        (ownTree w).answers.fragment c (.expression code level)) (run p) := by
    refine outcome_run hserved ?_ hpending hn fun id p hp hn => outcome_blockCode hserved hp hn
    have hcalls : [c] = (b.target? socket).toList ++ [] := by
      rw [ht]
      rfl
    rw [hcalls]
    refine ensures_value? (fun x hx code hf => ?_) (fun hnone => ?_) fun x hx code level hf => ?_
    · obtain rfl := Option.some.inj (ht.symm.trans hx)
      obtain ⟨d, hd, hout⟩ := isExpression_iff.mp hc
      have hfalse : false = d.connectors.output := hf.1 d hd
      simp [← hfalse] at hout
    · simp [ht] at hnone
    · obtain rfl := Option.some.inj (ht.symm.trans hx)
      exact ⟨rfl, code, level, rfl, hf⟩
  change ∃ code e p', run p = _ ∧ _
  cases hr : run p with
  | mk result p' =>
    rw [hr] at hout
    cases result with
    | error error =>
      obtain ⟨-, d, hd, x, n, hx, hle⟩ := hout
      obtain rfl := List.mem_singleton.mp hd
      exact absurd (hshallow x n hx.of_beneath) (Nat.not_lt.mpr hle)
    | ok v =>
      obtain ⟨⟨code, level, rfl, -, hspelled⟩, -, -⟩ := hout
      have hparses := ((hspelled code level rfl e he).placed bound).parses
      refine ⟨_, e, p', rfl, fun e' => ⟨fun h => h.unique he, fun h => h ▸ he⟩, fun e' => ?_⟩
      exact ⟨fun h => h.unique hparses, fun h => h ▸ hparses⟩

/-- A negated comparison of a negated power, the last element of a list, and an empty side. -/
theorem value_reads_tree_of_conjunction :
    let steps := [Action.add ⟨"print"⟩ "text_print" false, .add ⟨"outer"⟩ "logic_operation" false,
      .connectValue ⟨"print"⟩ "TEXT" ⟨"outer"⟩, .add ⟨"not"⟩ "logic_negate" false,
      .connectValue ⟨"outer"⟩ "A" ⟨"not"⟩, .add ⟨"less"⟩ "logic_compare" false,
      .connectValue ⟨"not"⟩ "BOOL" ⟨"less"⟩, .setField ⟨"less"⟩ "OP" (.choice "LT"),
      .add ⟨"minus"⟩ "math_single" false, .connectValue ⟨"less"⟩ "A" ⟨"minus"⟩,
      .setField ⟨"minus"⟩ "OP" (.choice "NEG"), .add ⟨"power"⟩ "math_arithmetic" false,
      .connectValue ⟨"minus"⟩ "NUM" ⟨"power"⟩, .setField ⟨"power"⟩ "OP" (.choice "POWER"),
      .add ⟨"item"⟩ "variables_get" false, .connectValue ⟨"power"⟩ "A" ⟨"item"⟩,
      .add ⟨"inner"⟩ "logic_operation" false, .connectValue ⟨"outer"⟩ "B" ⟨"inner"⟩,
      .add ⟨"last"⟩ "lists_get_index" false, .connectValue ⟨"inner"⟩ "A" ⟨"last"⟩,
      .setField ⟨"last"⟩ "WHERE" (.choice "FROM_END")].map Desk.Step.edit
    let w := (Desk.run standard.shapes steps).workspace
    let code := "not -item ** 0 < None and [][-1] and True"
    Possible standard.shapes w ∧ w.ValuesFit ∧ ∃ b, w.find? ⟨"print"⟩ = some b ∧
      b.target? "TEXT" = some ⟨"outer"⟩ ∧ w.isExpression ⟨"outer"⟩ ∧
      Shallow (callsOf w) maxDepth ⟨"outer"⟩ ∧ ∃ e p',
        (value? b "TEXT" .whole).run (blockCode standard.rules ⟨w, "  "⟩ maxDepth) ⟨w, "  "⟩
          { names := userNames w } = (.ok (some code), p') ∧
        (∀ e', Denotes w (identifierIn w) ⟨"outer"⟩ e' ↔ e' = e) ∧ ∀ e', Parses code e' ↔ e' = e := by
  intro steps w code
  have hw : Possible standard.shapes w := .inl ⟨steps, rfl⟩
  have hfit : w.ValuesFit := by decide +kernel
  have hc : w.isExpression ⟨"outer"⟩ := by decide +kernel
  have hshallow : Shallow (callsOf w) maxDepth ⟨"outer"⟩ := by decide +kernel
  have htarget : ((w.find? ⟨"print"⟩).bind (·.target? "TEXT")) = some ⟨"outer"⟩ := by decide +kernel
  have hcode : (w.find? ⟨"print"⟩).map (fun b => ((value? b "TEXT" .whole).run
      (blockCode standard.rules ⟨w, "  "⟩ maxDepth) ⟨w, "  "⟩ { names := userNames w }).1) =
      some (.ok (some code)) := by decide +kernel
  obtain ⟨b, hb, ht⟩ := Option.bind_eq_some_iff.mp htarget
  have hn : Continues w ({ names := userNames w } : Progress).names := List.prefix_rfl
  obtain ⟨code', e, p', hrun, hdenotes, hparses⟩ :=
    value_reads_tree hw hfit ht hc hshallow .whole "  " hn fun _ _ _ => List.not_mem_nil
  simp only [hb, Option.map_some, hrun, Option.some.injEq, Except.ok.injEq] at hcode
  rw [hcode] at hrun hparses
  exact ⟨hw, hfit, b, hb, ht, hc, hshallow, e, p', hrun, hdenotes, hparses⟩

end Python

end BlockProgram
