import BlockProgram.Proofs.Python.Beneath
import BlockProgram.Proofs.Python.Rules
import BlockProgram.Proofs.Python.Run
import BlockProgram.Proofs.Python.Vocabulary

/-! Every workspace that edits or documents lead to has a program, unless it is nested too deeply; and the
rule of every block that is reached runs once. -/
namespace BlockProgram.Python

open Workspace Recipe

theorem Vocabulary.generator_rules (v : Vocabulary) (indent : Nat) :
    (v.generator indent).rules = v.rules := rfl

namespace Generator

/-- The texts of the chains or what was in their way, and what the run has collected. -/
def outcome (g : Generator) (w : Workspace) : Except GenerationError (List String) × Progress :=
  let setting : Setting := ⟨w, String.ofList (List.replicate g.indent ' ')⟩
  (chains (roots w)).run (blockCode g.rules setting maxDepth) setting { names := userNames w }

/-- Generation checks the rules first, and then runs and puts the texts together. -/
theorem generate_eq (g : Generator) (w : Workspace) : g.generate w =
    (g.preflight w).bind fun _ =>
      match g.outcome w with
      | (.ok codes, p) => finish p (Text.join "\n" codes)
      | (.error e, _) => .error e := rfl

/-- A run is not refused if every block type of the workspace has a rule. -/
theorem preflight_of_rules {g : Generator} {w : Workspace}
    (h : ∀ b ∈ w.blocks, ∃ rule, g.rules.get? b.type = some rule) : g.preflight w = .ok () := by
  have hnone : (w.blocks.map (·.type)).filter (fun t => !g.rules.has t) = [] := by
    refine List.filter_eq_nil_iff.mpr fun type ht => ?_
    obtain ⟨b, hb, rfl⟩ := List.mem_map.mp ht
    obtain ⟨rule, hrule⟩ := h b hb
    simp [RuleRegistry.has, hrule]
  unfold preflight
  rw [hnone]
  rfl

/-- A program is what a run has ended with. -/
theorem outcome_of_generate {g : Generator} {w : Workspace} {source : String}
    (hok : g.generate w = .ok source) : ∃ codes p, g.outcome w = (.ok codes, p) ∧
      finish p (Text.join "\n" codes) = .ok source := by
  rw [generate_eq] at hok
  cases hpreflight : g.preflight w with
  | error e =>
    rw [hpreflight] at hok
    cases hok
  | ok _ =>
    rw [hpreflight] at hok
    cases hr : g.outcome w with
    | mk result p =>
      cases result with
      | error e =>
        rw [hr] at hok
        cases hok
      | ok codes =>
        rw [hr] at hok
        exact ⟨codes, p, rfl, hok⟩

end Generator

/-- Every block gives a text of its own kind. -/
def ownKind (w : Workspace) : Expectation where
  answers := ⟨fun c f => ∀ d, w.find? c = some d → f.isExpression = d.connectors.output,
    fun _ _ => True, fun _ => True⟩
  names _ := True

/-- Among the answers are only texts of the kinds of their blocks. -/
def Kindred (w : Workspace) (A : Answers) : Prop :=
  ∀ c f, A.fragment c f → (ownKind w).answers.fragment c f

section declared

variable {w : Workspace} {id c x : BlockId} {b d : Block} {shape : Shape} {A : Answers}
  (h : Sound True True w) (hd : w.shapes.Declared)
include h hd

private theorem output_of_previous (hb : w.find? c = some d) (hprevious : d.connectors.previous) :
    d.connectors.output = false := by
  obtain ⟨shape, hshape, -, hconn⟩ := h.shaped c d.bare (Workspace.bare?_of_find? hb)
  have hdecl := hd.shapes shape (ShapeRegistry.mem_of_get? hshape).1
  have hforms := hdecl.expressions _ (shape.connectorsOf_mem_forms d.bare.mutation)
  rw [← hconn] at hforms
  by_contra hout
  have hout : d.connectors.output = true := by simpa using hout
  have hfalse : d.connectors.previous = false := (hforms hout).1
  simp [hfalse] at hprevious

/-- A chain that starts with a statement is one of statements. -/
theorem output_of_row {l : List BlockId} (hr : w.Row c l) (hb : w.find? c = some d)
    (hout : d.connectors.output = false) :
    ∀ x ∈ l, ∃ e, w.find? x = some e ∧ e.connectors.output = false := by
  refine hr.invariant ⟨d, hb, hout⟩ fun a x _ hn => ?_
  obtain ⟨e, he, hprevious⟩ := h.fits _ _ ((h.linked.link _ _).mp hn)
  obtain ⟨e, hfind, rfl⟩ := Option.map_eq_some_iff.mp he
  exact ⟨e, hfind, output_of_previous h hd hfind (hprevious trivial)⟩

/-- What stands in the sockets of a block is of their kinds. -/
theorem formed_of_slots (hA : Kindred w A) (hb : w.find? id = some b) (htype : b.type = shape.type)
    (hslots : b.sockets.map (fun k => (k.name, k.kind)) = shape.slots b.mutation)
    (haccepts : shape.accepts b.mutation) (hfills : shape.Fills b.fields) : Formed shape A w b := by
  refine ⟨htype, hslots, h.linked.socket_names hb, haccepts, hfills,
    fun k hk hkind c ht code hf => ?_, fun k hk hkind t ht c hc code level hf => ?_⟩
  · obtain ⟨d, hfind, -, htakes⟩ := takes_target h hb hk ht
    simp only [Socket.takes, hkind, Bool.and_eq_true] at htakes
    have hfalse : false = d.connectors.output := hA c _ hf d hfind
    simp [← hfalse] at htakes
  · obtain ⟨d, hfind, -, htakes⟩ := takes_target h hb hk ht
    simp only [Socket.takes, hkind] at htakes
    have hrow := h.linked.row_chain_of_acyclic (h.acyclic trivial) (has_iff.mpr ⟨d, hfind⟩)
    obtain ⟨e, he, hout⟩ := output_of_row h hd hrow hfind (output_of_previous h hd hfind htakes) c hc
    have htrue : true = e.connectors.output := hA c _ hf e he
    simp [← htrue] at hout

omit hd in
/-- The chains of a program are chains of statements. -/
theorem output_of_root {r : BlockId} (hr : r ∈ Generator.roots w) :
    ∃ d, w.find? r = some d ∧ d.connectors.output = false := by
  obtain ⟨d, hd, rfl⟩ := List.mem_map.mp hr
  have hhead : d ∈ w.topBlocks.filter fun b => !b.connectors.output := by
    split at hd
    · exact hd
    · exact (List.mem_filter.mp hd).1
  obtain ⟨hmem, hout⟩ := List.mem_filter.mp hhead
  exact ⟨d, find?_of_mem h.linked.nodup (List.mem_filter.mp hmem).1, by simpa using hout⟩

/-- The text of every chain is that of its blocks. -/
theorem ensures_chains (hA : Kindred w A) {s : Setting} (hs : s.workspace = w)
    {heads : List BlockId} (hsub : ∀ r ∈ heads, r ∈ Generator.roots w) :
    (Generator.chains heads).Ensures s A (fun codes rest => rest = [] ∧
      List.Forall₂ (fun r code => Statements A (w.chain r) code) heads codes)
      (heads.flatMap w.chain) := by
  induction heads with
  | nil => exact ⟨rfl, .nil⟩
  | cons r heads ih =>
    obtain ⟨d, hfind, hout⟩ := output_of_root h (hsub r List.mem_cons_self)
    have hrow := h.linked.row_chain_of_acyclic (h.acyclic trivial) (has_iff.mpr ⟨d, hfind⟩)
    have hkind (c : BlockId) (hc : c ∈ w.chain r) (code : String) (level : Precedence) :
        ¬ A.fragment c (.expression code level) := by
      intro hf
      obtain ⟨e, he, hout⟩ := output_of_row h hd hrow hfind hout c hc
      have htrue : true = e.connectors.output := hA c _ hf e he
      simp [← htrue] at hout
    unfold Generator.chains Recipe.chain
    refine ensures_bind (ensures_bind ?_)
    rw [List.flatMap_cons]
    subst hs
    refine ensures_statements hkind fun code hcode => ensures_bind ?_
    refine (ih fun r hr => hsub r (List.mem_cons_of_mem _ hr)).mono ?_
    exact fun codes rest ⟨hrest, hcodes⟩ => ⟨hrest, .cons hcode hcodes⟩

theorem has_of_mem_tops (hc : c ∈ tops w) : w.has c := by
  obtain ⟨r, hr, hc⟩ := List.mem_flatMap.mp hc
  obtain ⟨d, hfind, hout⟩ := output_of_root h hr
  have hrow := h.linked.row_chain_of_acyclic (h.acyclic trivial) (has_iff.mpr ⟨d, hfind⟩)
  obtain ⟨e, he, -⟩ := output_of_row h hd hrow hfind hout c hc
  exact has_iff.mpr ⟨e, he⟩

/-- What becomes of the chains of a program, if the rules do what is expected of them. -/
theorem outcome_of_declared {g : Generator} {X : Expectation} {next : BlockId → List BlockId}
    {known : BlockId → Prop} (hA : Kindred w X.answers)
    (hserved : Served g.rules ⟨w, String.ofList (List.replicate g.indent ' ')⟩ X next known)
    (hsub : ∀ p, next p ⊆ callsOf w p) (hknown : ∀ c ∈ tops w, known c)
    (hn : X.names (userNames w)) :
    Outcome X next maxDepth (tops w) { names := userNames w }
      (List.Forall₂ (fun r code => Statements X.answers (w.chain r) code) (Generator.roots w))
      (g.outcome w) := by
  refine outcome_run hserved (ensures_chains h hd hA rfl fun r hr => hr) ?_ hn
    fun id p hp hn => outcome_blockCode hserved hp hn
  exact ⟨hknown, nodup_tops h, fun hc hd hx hx' => tops_eq_of_within h hc hd (hx.mono hsub) (hx'.mono hsub),
    fun _ _ hx => nomatch hx⟩

end declared

section standard

variable {w : Workspace} {id c : BlockId} {b : Block} {shape : Shape} {A : Answers}
  (h : Sound True True w) (hv : Bears standard.shapes (Valid standard.shapes) w)
include hv

omit h in
theorem declared_standard : w.shapes.Declared := hv.shapes ▸ standard_declared

include h

theorem formed_standard (hA : Kindred w A) (hb : w.find? id = some b)
    (hshape : standard.shapes.get? b.type = some shape) : Formed shape A w b := by
  obtain ⟨shape', hshape', hsockets, -⟩ := h.shaped id b.bare (Workspace.bare?_of_find? hb)
  rw [hv.shapes] at hshape'
  obtain rfl : shape = shape' := Option.some.inj (hshape.symm.trans hshape')
  obtain ⟨shape', hshape', haccepts, hfills, -⟩ := hv.blocks b (mem_of_find? hb).1
  obtain rfl : shape = shape' := Option.some.inj (hshape.symm.trans hshape')
  exact formed_of_slots h (declared_standard hv) hA hb (ShapeRegistry.mem_of_get? hshape).2.symm
    (Shape.slots_of_layout hsockets) haccepts hfills

private theorem served_standard (indent : String) :
    Served standard.rules ⟨w, indent⟩ (ownKind w) (callsOf w) fun id => w.has id where
  tree := tree_callsOf h
  closed _ hc := by
    obtain ⟨s, he⟩ := encloses_of_mem_callsOf h hc
    exact he.has
  serves id hid := by
    obtain ⟨b, hb⟩ := has_iff.mp hid
    obtain ⟨shape, hshape, -⟩ := hv.blocks b (mem_of_find? hb).1
    obtain ⟨rule, hrule, hmem⟩ := exists_rule hshape
    obtain ⟨shape', hshape', -, hconn⟩ := h.shaped id b.bare (Workspace.bare?_of_find? hb)
    rw [hv.shapes] at hshape'
    obtain rfl : shape = shape' := Option.some.inj (hshape.symm.trans hshape')
    have hserves := serves_standard (shape, rule) hmem
      (s := ⟨w, indent⟩) (formed_standard h hv (fun _ _ hf => hf) hb hshape)
    refine ⟨b, rule, hb, hrule, ?_⟩
    rw [callsOf_eq hb]
    refine hserves.mono fun f rest hf => ⟨hf.1, fun d hd => ?_⟩
    obtain rfl : b = d := Option.some.inj (hb.symm.trans hd)
    exact hf.2.1.trans (congrArg Connectors.output hconn.symm)
  variableName _ _ _ := ⟨trivial, trivial⟩
  distinct _ _ _ := ⟨trivial, trivial⟩

variable {g : Generator} (hg : g.rules = standard.rules)
include hg

/-- If the rules serve every block that is known, a run ends as expected or because blocks are nested
too deep. -/
theorem outcome_of_served {X : Expectation} {known : BlockId → Prop} (hA : Kindred w X.answers)
    (hserved : Served standard.rules ⟨w, String.ofList (List.replicate g.indent ' ')⟩ X (callsOf w)
      known) (hknown : ∀ c ∈ tops w, known c) (hn : X.names (userNames w)) :
    Outcome X (callsOf w) maxDepth (tops w) { names := userNames w }
      (List.Forall₂ (fun r code => Statements X.answers (w.chain r) code) (Generator.roots w))
      (g.outcome w) :=
  outcome_of_declared h (declared_standard hv) hA (hg ▸ hserved) (fun _ => List.Subset.refl _) hknown hn

/-- A run over the standard vocabulary gives every block that it comes to a text of its kind, or ends
because blocks are nested too deep. -/
theorem outcome_standard :
    Outcome (ownKind w) (callsOf w) maxDepth (tops w) { names := userNames w }
      (List.Forall₂ (fun r code => Statements (ownKind w).answers (w.chain r) code)
        (Generator.roots w)) (g.outcome w) :=
  outcome_of_served h hv hg (fun _ _ hf => hf) (served_standard h hv _)
    (fun _ hc => has_of_mem_tops h (declared_standard hv) hc) trivial

/-- Where there is a program, no block that a run comes to is too many levels deep. -/
theorem shallow_of_generate {source : String} (hok : g.generate w = .ok source) :
    ∀ c ∈ tops w, Shallow (callsOf w) maxDepth c := by
  obtain ⟨codes, p, hr, -⟩ := Generator.outcome_of_generate hok
  have hout := outcome_standard h hv hg
  rw [hr] at hout
  exact hout.2.2.shallow

omit h in
private theorem preflight_standard : g.preflight w = .ok () := by
  refine Generator.preflight_of_rules fun b hb => ?_
  obtain ⟨shape, hshape, -⟩ := hv.blocks b hb
  obtain ⟨rule, hrule, -⟩ := exists_rule hshape
  exact ⟨rule, hg ▸ hrule⟩

end standard

/-- A workspace over the standard vocabulary that was restored from a document or edited has a program,
unless a block that is reached is nested 256 levels deep or more: that is the only failure there is. The
rules of the blocks that are reached have then run, once each, and no others. -/
theorem generate_standard {w : Workspace} (h : Attained standard.shapes w) (indent : Nat) :
    let g := standard.generator indent
    ((∃ x, g.generate w = .error (.tooDeep x)) ↔
      ∃ x n, Reached w x ∧ w.Nested x n ∧ 256 ≤ n) ∧
    ((∀ x, g.generate w ≠ .error (.tooDeep x)) → (∃ source, g.generate w = .ok source) ∧
      (g.outcome w).2.visited.Nodup ∧ ∀ x, x ∈ (g.outcome w).2.visited ↔ Reached w x) := by
  intro g
  have hg : g.rules = standard.rules := standard.generator_rules indent
  have hv := h.valid standard_declared
  have hs : Sound True True w := h.sound standard_declared
  have hout := outcome_standard hs hv hg
  have hgenerate := g.generate_eq w
  rw [show g.preflight w = .ok () from preflight_standard hv hg] at hgenerate
  cases hr : g.outcome w with
  | mk result p =>
    rw [hr] at hout hgenerate
    cases result with
    | ok codes =>
      obtain ⟨-, -, hran⟩ := hout
      obtain ⟨new, hvisited, hnodup, hnew⟩ := hran.visited
      have hvisited : p.visited = new := hvisited.trans (List.append_nil new)
      have hok : g.generate w =
          .ok (assemble (p.definitions.map (·.2)) (Text.join "\n" codes)) := by
        refine hgenerate.trans ?_
        change finish p _ = _
        unfold finish
        rw [hran.faults]
      refine ⟨⟨fun ⟨x, hx⟩ => ?_, fun ⟨x, n, hx, hn, hle⟩ => ?_⟩, fun _ => ⟨⟨_, hok⟩, ?_, fun x => ?_⟩⟩
      · rw [hok] at hx
        cases hx
      · obtain ⟨c, hc, m, hm⟩ := (reached_iff hs).mp hx
        have hmn := (nested_of_within hs hm (nested_of_mem_tops hs hc)).unique hn
        have hlt : m < 256 := hran.shallow c hc x m hm
        omega
      · exact hvisited ▸ hnodup
      · dsimp only
        rw [hvisited, hnew, reached_iff hs]
    | error e =>
      obtain ⟨⟨x, rfl⟩, c, hc, y, m, hm, hle⟩ := hout
      have herror : g.generate w = .error (.tooDeep x) := hgenerate
      refine ⟨⟨fun _ => ?_, fun _ => ⟨x, herror⟩⟩, fun hne => (hne x herror).elim⟩
      exact ⟨y, m, (reached_iff hs).mpr ⟨c, hc, m, hm⟩,
        nested_of_within hs hm (nested_of_mem_tops hs hc), hle⟩

/-- The last element of a list is printed in a loop; the number in the socket for the index is not
asked for. -/
theorem generate_standard_of_last :
    let w := [Action.add ⟨"main"⟩ "program_main" false, .add ⟨"loop"⟩ "controls_repeat_ext" false,
      .connectStatement ⟨"main"⟩ "DO" ⟨"loop"⟩, .add ⟨"print"⟩ "text_print" false,
      .connectStatement ⟨"loop"⟩ "DO" ⟨"print"⟩, .add ⟨"last"⟩ "lists_get_index" false,
      .connectValue ⟨"print"⟩ "TEXT" ⟨"last"⟩, .setField ⟨"last"⟩ "WHERE" (.choice "LAST"),
      .add ⟨"index"⟩ "math_number" false,
      .connectValue ⟨"last"⟩ "AT" ⟨"index"⟩].foldl Action.apply (.empty standard.shapes)
    Attained standard.shapes w ∧ (standard.generator 2).generate w = .ok (String.join ["def main():\n",
      "  for count in range(0):\n", "    print([][-1])\n", "\n\n",
      "if __name__ == '__main__':\n", "  main()\n"]) ∧
    (∀ x, x ∈ ((standard.generator 2).outcome w).2.visited ↔ Reached w x) ∧ ¬ Reached w ⟨"index"⟩ := by
  intro w
  have hw : Attained standard.shapes w := .inl (Edited.empty.run _)
  have hok : (standard.generator 2).generate w = .ok (String.join ["def main():\n",
      "  for count in range(0):\n", "    print([][-1])\n", "\n\n",
      "if __name__ == '__main__':\n", "  main()\n"]) := by decide +kernel
  have hne (x : BlockId) : (standard.generator 2).generate w ≠ .error (.tooDeep x) := by
    rw [hok]
    nofun
  have hvisited := ((generate_standard hw 2).2 hne).2.2
  refine ⟨hw, hok, hvisited, fun hx => ?_⟩
  have hnot : ⟨"index"⟩ ∉ ((standard.generator 2).outcome w).2.visited := by decide +kernel
  exact hnot ((hvisited _).mpr hx)

end BlockProgram.Python
