import BlockProgram.Proofs.Python.Generate
import BlockProgram.Proofs.Python.Written

/-! The body of every program is read, by its indentation, as the statements of the blocks at the top and of
all that they hold. -/
namespace BlockProgram.Python

open Syntax Workspace

section standard

variable {w : Workspace} {id c x : BlockId} {b : Block} {width n : Nat} {f : Fragment} {roots : List BlockId}
  {codes : List String}
  (hs : Sound True True w) (hv : Bears standard.shapes (Valid standard.shapes) w)

include hs

private theorem reached_of_call (hid : Reached w id) (hc : c ∈ callsOf w id) : Reached w c := by
  obtain ⟨top, htop, n, hn⟩ := (reached_iff hs).mp hid
  exact (reached_iff hs).mpr ⟨top, htop, n + 1, .call hn hc⟩

include hv

private theorem has_of_reached (hid : Reached w id) : w.has id := by
  obtain ⟨c, hc, n, hn⟩ := (reached_iff hs).mp hid
  cases hn with
  | self => exact has_of_mem_tops hs (declared_standard hv) hc
  | call _ hcall =>
    obtain ⟨s, he⟩ := encloses_of_mem_callsOf hs hcall
    exact he.has

variable (hshallow : ∀ c ∈ tops w, Shallow (callsOf w) maxDepth c)
include hshallow

/-- The blocks in the sockets of a block that is reached stand for trees. -/
theorem exists_trees (hid : Reached w id) (hb : w.find? id = some b) :
    ∃ trees, Trees w b trees := by
  obtain ⟨top, htop, m, hm⟩ := (reached_iff hs).mp hid
  have hlevels : Shallow (callsOf w) maxDepth id := fun x n hx =>
    Nat.lt_of_le_of_lt (Nat.le_add_left n m) (hshallow top htop x (m + n) (hm.trans hx))
  have hused (x : BlockId) (n : Nat) (hx : Within (callsOf w) id x n) : ∃ d, w.find? x = some d ∧
      ∀ socket c, used? d socket = some c → c ∈ callsOf w x := by
    have hreached : Reached w x := (reached_iff hs).mpr ⟨top, htop, m + n, hm.trans hx⟩
    obtain ⟨d, hd⟩ := has_iff.mp (has_of_reached hs hv hreached)
    refine ⟨d, hd, fun socket c hu => ?_⟩
    obtain ⟨hunused, k, hk, rfl, ht⟩ := used?_eq_some hu
    exact mem_callsOf.mpr ⟨d, hd, k, hk, hunused, mem_slotCalls hs hd hk ht⟩
  obtain ⟨e, he⟩ : ∃ e, Denotes w (identifierIn w) id e := exists_denotes hlevels hused
  obtain ⟨b', trees, hb', htrees, -⟩ := he.exists_trees
  obtain rfl := Option.some.inj (hb.symm.trans hb')
  exact ⟨trees, htrees⟩

/-- A text that the rule of a block gives says what the block stands for. -/
theorem fragment_of_ruleText (hid : Reached w id) (hb : w.find? id = some b)
    (hkind : f.isExpression = b.connectors.output)
    (ht : RuleText ⟨w, blanks width⟩ (ownText w width).answers b f) :
    (ownText w width).answers.fragment id f := by
  have hanswered {trees : String → Expr} (htrees : Trees w b trees) :
      Answered (ownText w width).answers (identifierIn w) b trees := by
    refine answered hs.weaken hv hb (fun k hk c ht => ?_) htrees (fun _ _ h => h)
      fun c code level hf => hf.1.2 code level rfl
    obtain ⟨d, hd, -, htakes⟩ := takes_target hs hb hk ht
    exact ⟨d, hd, htakes⟩
  refine ⟨⟨fun d hd => ?_, ?_⟩, ?_⟩
  · obtain rfl := Option.some.inj (hb.symm.trans hd)
    exact hkind
  · rintro code level rfl e he
    obtain ⟨b', trees, hb', htrees, rfl⟩ := he.exists_trees
    obtain rfl := Option.some.inj (hb.symm.trans hb')
    exact (hanswered htrees).spelled ht rfl
  · cases f with
    | expression code level =>
      intro n hn
      obtain ⟨b', trees, hb', -, he⟩ := hn.exists_trees
      obtain rfl := Option.some.inj (hb.symm.trans hb')
      exact digits_of_text ht rfl he.symm
    | statement code =>
      obtain ⟨trees, htrees⟩ := exists_trees hs hv hshallow hid hb
      have hchains (socket : String) (t : BlockId) (ht : b.target? socket = some t) :
          w.chain t ≠ [] := List.ne_nil_of_mem (row_of_target? hs hb ht).head_mem
      obtain ⟨g, houtlines, hwritten⟩ := (hanswered htrees).written hchains htrees ht
      exact ⟨b, trees, g, hb, htrees, houtlines, hwritten⟩

private theorem served_text : Served standard.rules ⟨w, blanks width⟩ (ownText w width) (callsOf w)
    (Reached w) where
  tree := tree_callsOf hs
  closed hid hc := reached_of_call hs hid hc
  serves id hid := by
    obtain ⟨b, hb⟩ := has_iff.mp (has_of_reached hs hv hid)
    obtain ⟨shape, hshape, -, -, -, hconn⟩ := exists_shape hs.weaken hv hb
    obtain ⟨rule, hrule, hmem⟩ := exists_rule hshape
    have hkindred : Kindred w (ownText w width).answers := fun _ _ hf => hf.1.1
    have hserves := serves_standard (shape, rule) hmem
      (s := ⟨w, blanks width⟩) (formed_standard hs hv hkindred hb hshape)
    refine ⟨b, rule, hb, hrule, ?_⟩
    rw [callsOf_eq hb]
    refine hserves.mono fun f rest ⟨hrest, hkind, htext⟩ => ⟨hrest, ?_⟩
    have hkind := hkind.trans (congrArg Connectors.output hconn.symm)
    exact fragment_of_ruleText hs hv hshallow hid hb hkind htext
  variableName user names hn :=
    ⟨fun hu => by rw [hn.1.variableName_eq hu], hn.1.variableName, hn.2.variableName⟩
  distinct base names hn := ⟨(usable_distinct hn.2.taken).proper, hn.1, hn.2.distinct⟩

end standard

/-- Chains with an empty line between them. -/
theorem exists_body {w : Workspace} {width : Nat} {roots : List BlockId} {codes : List String}
    (h : List.Forall₂ (fun r code => Statements (ownText w width).answers (w.chain r) code) roots codes) :
    ∃ g, ChainOutlines w (roots.flatMap w.chain) g ∧ Written width (Text.join "\n" codes) g := by
  induction h with
  | nil => exact ⟨.nil, .nil, .nil⟩
  | @cons r code roots codes hstatements hrest ih =>
    obtain ⟨f, hchain, hwritten⟩ := exists_chain hstatements
    obtain ⟨g, hchains, hmore⟩ := ih
    cases hrest with
    | nil => exact ⟨f, by simpa using hchain, hwritten⟩
    | @cons r' code' _ codes =>
      have hjoin : Text.join "\n" (code :: code' :: codes) =
          code ++ ("\n" ++ Text.join "\n" (code' :: codes)) := String.append_assoc
      rw [hjoin]
      exact ⟨f.append g, hchain.append hchains, hwritten.append hmore.emptyLine⟩

/-- The body of a program of a workspace over the standard vocabulary, read by its indentation, is the
statements of the chains at the top, each saying what its block stands for. Every line starts with as many
blanks as the statement sockets around its block ask for, and then with something else. -/
theorem body_reads_statements {w : Workspace} (h : Attained standard.shapes w) {width : Nat}
    (hwidth : 0 < width) {source : String} (hok : (standard.generator width).generate w = .ok source) :
    ∃ (body : String) (f : Forest (Statement × String)),
      source = assemble (((standard.generator width).outcome w).2.definitions.map (·.2)) body ∧
      ChainOutlines w ((Generator.roots w).flatMap w.chain) (f.map Prod.fst) ∧
      readProgram body = some (f.map Prod.snd) ∧
      lineRows body = (f.rows 0).map (fun row => (row.1 * width, row.2.2)) ∧
      ∀ row ∈ f.rows 0, (∀ head, Says row.2.2 head ↔ head = row.2.1.head) ∧
        ∃ n, (∀ m, w.Indented row.2.1.owner m ↔ m = n) ∧
          row.1 = if row.2.1.filler then n + 1 else n := by
  let g := standard.generator width
  have hs : Sound True True w := h.sound standard_declared
  have hv := h.valid standard_declared
  have hg : g.rules = standard.rules := standard.generator_rules width
  have hshallow := shallow_of_generate hs hv hg hok
  have hout : Outcome (ownText w width) (callsOf w) maxDepth (tops w) { names := userNames w }
      (List.Forall₂ (fun r code => Statements (ownText w width).answers (w.chain r) code)
        (Generator.roots w)) (g.outcome w) := by
    refine outcome_of_served hs hv hg (fun _ _ hf => hf.1.1) (served_text hs hv hshallow)
      (fun c hc => ?_) ⟨continues_userNames, sane_userNames⟩
    exact (reached_iff hs).mpr ⟨c, hc, 0, .self⟩
  obtain ⟨codes, p, hr, hfinish⟩ := Generator.outcome_of_generate hok
  rw [hr] at hout
  obtain ⟨hstatements, -, hran⟩ := hout
  obtain ⟨_, hchains, f, rfl, hprints, hlines, htidy⟩ := exists_body hstatements
  have hsource : source = assemble (p.definitions.map (·.2)) (Text.join "\n" codes) := by
    unfold finish at hfinish
    rw [hran.faults] at hfinish
    exact (Except.ok.inj hfinish).symm
  have hstand := hchains.stand hs fun id hid => indented_of_mem_tops hs hid
  refine ⟨Text.join "\n" codes, f, ?_, hchains, hprints.read ?_ hwidth, ?_, fun row hrow => ⟨?_, ?_⟩⟩
  · rw [hr]
    exact hsource
  · exact htidy.map fun row hrow => (hlines row hrow).opens
  · rw [hprints.lineRows_eq, Forest.rows_map, List.map_map]
    rfl
  · exact fun head => ⟨fun hsays => hsays.unique (hlines row hrow).reads, by
      rintro rfl
      exact (hlines row hrow).reads⟩
  · obtain ⟨n, hn, hdepth⟩ := hstand (row.1, row.2.1) (by
      rw [Forest.rows_map]
      exact List.mem_map_of_mem hrow)
    exact ⟨n, fun m => ⟨fun hm => hm.unique hn, fun hm => hm ▸ hn⟩, hdepth⟩

/-- A branch with a loop in it, and one that is empty. -/
theorem body_reads_statements_of_branches :
    let w := [Action.add ⟨"main"⟩ "program_main" false, .add ⟨"if"⟩ "controls_if" false,
      .connectStatement ⟨"main"⟩ "DO" ⟨"if"⟩, .reshape ⟨"if"⟩ 1, .add ⟨"true"⟩ "logic_boolean" false,
      .connectValue ⟨"if"⟩ "IF0" ⟨"true"⟩, .add ⟨"loop"⟩ "controls_repeat_ext" false,
      .connectStatement ⟨"if"⟩ "DO0" ⟨"loop"⟩, .add ⟨"print"⟩ "text_print" false,
      .connectStatement ⟨"loop"⟩ "DO" ⟨"print"⟩].foldl Action.apply (.empty standard.shapes)
    let source := String.join ["def main():\n", "  if True:\n", "    for count in range(0):\n",
      "      print('')\n", "  elif False:\n", "    pass\n", "\n\n", "if __name__ == '__main__':\n",
      "  main()\n"]
    Attained standard.shapes w ∧ 0 < 2 ∧ (standard.generator 2).generate w = .ok source ∧
      ∃ f : Forest (Statement × String),
        ChainOutlines w ((Generator.roots w).flatMap w.chain) (f.map Prod.fst) ∧
        f.map Prod.snd = .cons "def main():"
          (.cons "if True:" (.cons "for count in range(0):" (.leaf "print('')") .nil)
            (.cons "elif False:" (.leaf "pass") .nil))
          (.cons "if __name__ == '__main__':" (.leaf "main()") .nil) ∧
        lineRows source = (f.rows 0).map (fun row => (row.1 * 2, row.2.2)) ∧
        ∀ row ∈ f.rows 0, (∀ head, Says row.2.2 head ↔ head = row.2.1.head) ∧
          ∃ n, (∀ m, w.Indented row.2.1.owner m ↔ m = n) ∧
            row.1 = if row.2.1.filler then n + 1 else n := by
  intro w source
  have hw : Attained standard.shapes w := .inl (Edited.empty.run _)
  have hok : (standard.generator 2).generate w = .ok source := by decide +kernel
  have hdefinitions : ((standard.generator 2).outcome w).2.definitions = [] := by decide +kernel
  obtain ⟨body, f, hsource, hchains, hread, hlines, hrows⟩ := body_reads_statements hw (by decide) hok
  obtain rfl : source = body := by
    rw [hdefinitions] at hsource
    exact hsource
  have hforest : readProgram source = some (.cons "def main():"
      (.cons "if True:" (.cons "for count in range(0):" (.leaf "print('')") .nil)
        (.cons "elif False:" (.leaf "pass") .nil))
      (.cons "if __name__ == '__main__':" (.leaf "main()") .nil)) := by
    decide +kernel
  exact ⟨hw, by decide, hok, f, hchains, Option.some.inj (hread.symm.trans hforest), hlines, hrows⟩

end BlockProgram.Python
