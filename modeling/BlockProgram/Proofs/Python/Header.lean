import BlockProgram.Proofs.Python.Calm
import BlockProgram.Proofs.Python.Generate

/-! The header of a program. Rules ask for definitions wherever they stand; of those with one key the first
is kept, in the order in which they are asked for. The standard rules ask for imports only, each of them
before the blocks in its sockets are asked for. -/
namespace BlockProgram.Python

open Workspace Recipe

/-- The definitions that are asked for while a recipe is carried out, with their keys and in their order.
`inner` lists those that the rules of other blocks ask for. -/
def Recipe.definitions {α : Type} (visit : BlockId → Run Fragment)
    (inner : BlockId → Progress → List (String × String)) (setting : Setting) :
    Recipe α → Progress → List (String × String)
  | .done _, _ => []
  | .fail _, _ => []
  | .look k, p => (k setting).definitions visit inner setting p
  | .visit id k, p =>
    let (result, p') := visit id p
    inner id p ++ (k result).definitions visit inner setting p'
  | .variableName user k, p =>
    let (name, names) := p.names.variableName user
    (k name).definitions visit inner setting { p with names }
  | .distinctName base k, p =>
    let (name, names) := p.names.distinct base
    (k name).definitions visit inner setting { p with names }
  | .define key code k, p => (key, code) :: k.definitions visit inner setting (p.define key code)

/-- The definitions that are asked for while a block is turned into text. -/
def blockDefinitions (rules : RuleRegistry) (setting : Setting) :
    Nat → BlockId → Progress → List (String × String)
  | 0, _, _ => []
  | levels + 1, id, p =>
    match setting.workspace.find? id with
    | none => []
    | some b =>
      if id ∈ p.visited then []
      else
        match rules.get? b.type with
        | none => []
        | some rule => (rule b).definitions (blockCode rules setting levels)
            (blockDefinitions rules setting levels) setting { p with visited := id :: p.visited }

/-- The definitions that are asked for while the program of a workspace is generated. -/
def Generator.definitions (g : Generator) (w : Workspace) : List (String × String) :=
  let setting : Setting := ⟨w, String.ofList (List.replicate g.indent ' ')⟩
  (chains (roots w)).definitions (blockCode g.rules setting maxDepth)
    (blockDefinitions g.rules setting maxDepth) setting { names := userNames w }

def firstPerKey (l : List (String × String)) : List (String × String) :=
  l.eraseDupsBy fun d e => d.1 == e.1

variable {α : Type} {P : String → Prop} {w : Workspace} {setting : Setting} {rules : RuleRegistry}
  {visit : BlockId → Run Fragment} {inner : BlockId → Progress → List (String × String)}
  {p p' p'' : Progress} {l l' ds : List (String × String)} {source : String}

/-- Add a definition unless its key has one. -/
def addDefinition (ds : List (String × String)) (d : String × String) : List (String × String) :=
  if ds.any fun e => e.1 = d.1 then ds else ds ++ [d]

private theorem Progress.definitions_define (p : Progress) (key code : String) :
    (p.define key code).definitions = addDefinition p.definitions (key, code) := by
  unfold Progress.define addDefinition
  split <;> rfl

private theorem Progress.faults_define (p : Progress) (key code : String) :
    (p.define key code).faults = p.faults := by
  unfold Progress.define
  split <;> rfl

private theorem Progress.visited_define (p : Progress) (key code : String) :
    (p.define key code).visited = p.visited := by
  unfold Progress.define
  split <;> rfl

private theorem foldl_addDefinition : l.foldl addDefinition ds =
    ds ++ firstPerKey (l.filter fun d => !ds.any fun e => e.1 = d.1) := by
  induction l generalizing ds with
  | nil => exact (List.append_nil ds).symm
  | cons d l ih =>
    rw [List.foldl_cons, ih]
    unfold addDefinition
    by_cases hd : (ds.any fun e => e.1 = d.1) = true
    · rw [if_pos hd, List.filter_cons_of_neg (by simp [hd])]
    · have hlater : (l.filter fun e => !(ds ++ [d]).any fun e' => e'.1 = e.1) =
          (l.filter fun e => !ds.any fun e' => e'.1 = e.1).filter fun e => (e.1 == d.1) = false := by
        rw [List.filter_filter]
        refine List.filter_congr fun e _ => ?_
        rw [List.any_append, Bool.not_or, Bool.and_comm]
        by_cases he : d.1 = e.1
        · simp [he]
        · simp [he, Ne.symm he]
      rw [if_neg hd, List.filter_cons_of_pos (by simp [hd]), hlater, List.append_assoc]
      unfold firstPerKey
      rw [List.eraseDupsBy_cons]
      rfl

/-- A run adds the definitions that its recipe asks for, in their order, each key once. -/
theorem Recipe.definitions_run
    (hinner : ∀ id p, (visit id p).2.definitions = (inner id p).foldl addDefinition p.definitions)
    (r : Recipe α) (p : Progress) : (r.run visit setting p).2.definitions =
      (r.definitions visit inner setting p).foldl addDefinition p.definitions := by
  induction r generalizing p with
  | done a => rfl
  | fail e => rfl
  | look k ih => exact ih setting p
  | visit id k ih =>
    have hrest := ih (visit id p).1 (visit id p).2
    rw [hinner, ← List.foldl_append] at hrest
    exact hrest
  | variableName user k ih => exact ih _ { p with names := (p.names.variableName user).2 }
  | distinctName base k ih => exact ih _ { p with names := (p.names.distinct base).2 }
  | define key code k ih =>
    have hrest := ih (p.define key code)
    rw [p.definitions_define] at hrest
    exact hrest

private theorem definitions_recordFault (b : Block) (result : Except GenerationError Fragment)
    (p : Progress) : (recordFault b result p).2.definitions = p.definitions := by
  unfold recordFault
  split <;> rfl

private theorem definitions_blockCode (levels : Nat) (id : BlockId) (p : Progress) :
    (blockCode rules setting levels id p).2.definitions =
      (blockDefinitions rules setting levels id p).foldl addDefinition p.definitions := by
  induction levels generalizing id p with
  | zero =>
    unfold blockCode blockDefinitions
    split
    · rfl
    · split <;> rfl
  | succ levels ih =>
    unfold blockCode blockDefinitions
    cases setting.workspace.find? id with
    | none => rfl
    | some b =>
      dsimp only
      split
      · rfl
      · cases rules.get? b.type with
        | none => rfl
        | some rule =>
          exact (definitions_recordFault b _ _).trans
            (Recipe.definitions_run ih (rule b) { p with visited := id :: p.visited })

/-- A program without faulty blocks is its header and its body. -/
theorem finish_eq_ok {body : String} (h : finish p body = .ok source) :
    p.faults = [] ∧ source = assemble (p.definitions.map (·.2)) body := by
  unfold finish at h
  split at h
  · rename_i hfaults
    exact ⟨hfaults, (Except.ok.inj h).symm⟩
  · cases h
  · cases h

/-- A program is the first definition for each key, and then the texts of the run. -/
theorem Generator.header {g : Generator} (hok : g.generate w = .ok source) :
    ∃ codes p, g.outcome w = (.ok codes, p) ∧ p.faults = [] ∧
      source = assemble ((firstPerKey (g.definitions w)).map (·.2)) (Text.join "\n" codes) := by
  obtain ⟨codes, p, ho, hfinish⟩ := outcome_of_generate hok
  obtain ⟨hfaults, hsource⟩ := finish_eq_ok hfinish
  have hdefinitions : (g.outcome w).2.definitions = (g.definitions w).foldl addDefinition [] :=
    Recipe.definitions_run (definitions_blockCode maxDepth) (chains (roots w))
      { names := userNames w }
  rw [ho, foldl_addDefinition] at hdefinitions
  refine ⟨codes, p, ho, hfaults, ?_⟩
  rw [hsource, hdefinitions]
  simp

/-- The imports that the blocks need, in the order of the blocks. -/
def importsOf (w : Workspace) (ids : List BlockId) : List String :=
  ids.filterMap fun id => (w.find? id).bind importOf

def importDefinition (line : String) : String × String := (line, line)

/-- The run has come from `p` to `p'` without a fault, and `l` are the definitions of the imports that the
blocks need to whose rules it has come on the way. -/
structure Entered (w : Workspace) (p : Progress) (l : List (String × String)) (p' : Progress) :
    Prop where
  faults : p.faults = []
  imports : ∃ new, p'.visited = new ++ p.visited ∧
    l = (importsOf w new.reverse).map importDefinition

theorem Entered.nil (h : p.faults = []) : Entered w p [] p := ⟨h, [], rfl, rfl⟩

theorem Entered.append (h : Entered w p l p') (h' : Entered w p' l' p'') :
    Entered w p (l ++ l') p'' := by
  obtain ⟨new, hvisited, rfl⟩ := h.imports
  obtain ⟨new', hvisited', rfl⟩ := h'.imports
  refine ⟨h.faults, new' ++ new, by rw [hvisited', hvisited, List.append_assoc], ?_⟩
  unfold importsOf
  rw [List.reverse_append, List.filterMap_append, List.map_append]

/-- A calm recipe asks for no definitions but those that other blocks ask for. -/
theorem Recipe.Calm.entered {r : Recipe α} (h : r.Calm P)
    (hvisit : ∀ id p f p', visit id p = (.ok f, p') → p'.faults = [] → Entered w p (inner id p) p')
    {a : α} (hr : r.run visit setting p = (.ok a, p')) (hp : p'.faults = []) :
    Entered w p (r.definitions visit inner setting p) p' := by
  induction r generalizing p with
  | done a =>
    cases hr
    exact .nil hp
  | fail e => cases hr
  | look k ih => exact ih setting (h setting) hr
  | visit id k ih =>
    cases hv : visit id p with
    | mk result q =>
      simp only [Recipe.run, hv] at hr
      simp only [Recipe.definitions, hv]
      cases result with
      | error e =>
        rw [h.2] at hr
        cases hr
      | ok f =>
        have hrest := ih (.ok f) (h.1 f) hr
        exact (hvisit id p f q hv hrest.faults).append hrest
  | variableName user k ih =>
    have hrest := ih _ (h.2 _) hr
    exact ⟨hrest.faults, hrest.imports⟩
  | distinctName base k ih =>
    have hrest := ih _ (h _) hr
    exact ⟨hrest.faults, hrest.imports⟩
  | define key code k => exact h.elim

/-- The import of a block stands before the definitions that other blocks ask for. -/
theorem entered_of_heralds {r : Recipe α} {line : Option String} (h : r.Heralds P line)
    (hvisit : ∀ id p f p', visit id p = (.ok f, p') → p'.faults = [] → Entered w p (inner id p) p')
    {a : α} (hr : r.run visit setting p = (.ok a, p')) (hp : p'.faults = []) :
    ∃ l, r.definitions visit inner setting p = line.toList.map importDefinition ++ l ∧
      Entered w p l p' := by
  cases line with
  | none => exact ⟨_, rfl, Calm.entered h hvisit hr hp⟩
  | some line =>
    obtain ⟨rest, rfl, hrest⟩ := h
    obtain ⟨hfaults, himports⟩ := hrest.entered hvisit hr hp
    rw [p.faults_define] at hfaults
    rw [p.visited_define] at himports
    exact ⟨_, rfl, hfaults, himports⟩

/-- A block that has come out well has not been faulty. -/
theorem recordFault_eq_ok {b : Block} {result : Except GenerationError Fragment}
    {f : Fragment} (h : recordFault b result p = (.ok f, p')) (hp : p'.faults = []) :
    result = .ok f ∧ p = p' := by
  unfold recordFault at h
  split at h
  · cases h
    simp at hp
  · cases h
    exact ⟨rfl, rfl⟩

/-- A block that comes out well is known, comes up for the first time, and has a rule that has run. -/
theorem blockCode_eq_ok {levels : Nat} {id : BlockId} {f : Fragment}
    (h : blockCode rules setting levels id p = (.ok f, p')) :
    ∃ n b rule, levels = n + 1 ∧ setting.workspace.find? id = some b ∧ id ∉ p.visited ∧
      rules.get? b.type = some rule ∧ ∃ result q,
        (rule b).run (blockCode rules setting n) setting { p with visited := id :: p.visited } =
          (result, q) ∧ recordFault b result q = (.ok f, p') := by
  unfold blockCode at h
  cases hb : setting.workspace.find? id with
  | none =>
    rw [hb] at h
    cases h
  | some b =>
    rw [hb] at h
    dsimp only at h
    split at h
    · cases h
    · rename_i hfresh
      cases levels with
      | zero => cases h
      | succ n =>
        cases hrule : rules.get? b.type with
        | none =>
          rw [hrule] at h
          cases h
        | some rule =>
          rw [hrule] at h
          exact ⟨n, b, rule, rfl, rfl, hfresh, hrule, _, _, rfl, h⟩

private theorem entered_blockCode (levels : Nat) (id : BlockId) (p : Progress) (f : Fragment) (p' : Progress)
    (hr : blockCode standard.rules setting levels id p = (.ok f, p')) (hp : p'.faults = []) :
    Entered setting.workspace p (blockDefinitions standard.rules setting levels id p) p' := by
  induction levels generalizing id p f p' with
  | zero =>
    obtain ⟨_, _, _, hlevels, -⟩ := blockCode_eq_ok hr
    cases hlevels
  | succ levels ih =>
    obtain ⟨n, b, rule, hlevels, hb, hfresh, hrule, result, q, hrun, hrecord⟩ := blockCode_eq_ok hr
    obtain rfl : levels = n := Nat.succ.inj hlevels
    obtain ⟨rfl, rfl⟩ := recordFault_eq_ok hrecord hp
    obtain ⟨shape, hshape, hmem⟩ := exists_shape_of_rule hrule
    have hheralds : (rule b).Heralds (fun _ => True) (importOf b) :=
      heralds_standard hmem (ShapeRegistry.mem_of_get? hshape).2.symm fun _ _ _ _ _ => trivial
    obtain ⟨l, hl, hfaults, new, hvisited, rfl⟩ := entered_of_heralds hheralds ih hrun hp
    refine ⟨hfaults, new ++ [id], by rw [hvisited, List.append_assoc]; rfl, ?_⟩
    simp only [blockDefinitions, hb, hfresh, hrule, if_false]
    refine hl.trans ?_
    unfold importsOf
    rw [List.reverse_append, List.reverse_singleton, List.singleton_append,
      List.filterMap_cons, hb, Option.bind_some]
    cases importOf b <;> rfl

/-- The definitions of a standard program are the imports of the blocks, as they are come to. -/
theorem Generator.definitions_eq {g : Generator} {codes : List String}
    (hg : g.rules = standard.rules) (ho : g.outcome w = (.ok codes, p)) (hp : p.faults = []) :
    g.definitions w = (importsOf w p.visited.reverse).map importDefinition := by
  unfold outcome at ho
  rw [hg] at ho
  obtain ⟨-, new, hvisited, hl⟩ := (calm_chains (P := fun _ => True) (roots w)).entered
    (entered_blockCode maxDepth) ho hp
  obtain rfl : p.visited = new := hvisited.trans (List.append_nil new)
  unfold definitions
  rw [hg]
  exact hl

private theorem assemble_eq (header : List String) (body : String) : assemble header body =
    if header = [] then body else Text.join "\n" header ++ "\n\n" ++ body := by
  cases header <;> rfl

/-- After the first of a list, what is left to be deduplicated is the others that differ from it. -/
theorem once_induction {P : List String → Prop} (hnil : P [])
    (hcons : ∀ line lines, P (lines.filter fun l => !l == line) → P (line :: lines))
    (lines : List String) : P lines := by
  induction hn : lines.length using Nat.strongRecOn generalizing lines with
  | _ n ih =>
    cases lines with
    | nil => exact hnil
    | cons line lines =>
      have hlength := lines.length_filter_le fun l => !l == line
      rw [List.length_cons] at hn
      exact hcons line lines (ih _ (by omega) _ rfl)

private theorem codes_firstPerKey (lines : List String) :
    (firstPerKey (lines.map importDefinition)).map (·.2) = lines.eraseDups := by
  induction lines using once_induction with
  | hnil => rfl
  | hcons line lines ih =>
    have hlater : ((lines.map importDefinition).filter fun d =>
        (d.1 == (importDefinition line).1) = false) =
          (lines.filter fun l => !l == line).map importDefinition := by
      rw [List.filter_map]
      refine congrArg _ (List.filter_congr fun l _ => ?_)
      by_cases hl : l = line <;> simp [importDefinition, hl]
    unfold firstPerKey at ih ⊢
    rw [List.map_cons, List.eraseDupsBy_cons, List.map_cons, hlater, List.eraseDups_cons, ih]
    rfl

private theorem nodup_eraseDups (lines : List String) : lines.eraseDups.Nodup := by
  induction lines using once_induction with
  | hnil => exact List.nodup_nil
  | hcons line lines ih =>
    rw [List.eraseDups_cons]
    exact List.nodup_cons.mpr ⟨by simp [List.mem_eraseDups], ih⟩

private theorem mem_importsOf {ids : List BlockId} {line : String} : line ∈ importsOf w ids ↔
    ∃ x ∈ ids, ∃ b, w.find? x = some b ∧ importOf b = some line := by
  simp only [importsOf, List.mem_filterMap, Option.bind_eq_some_iff]

/-- A program starts with its header: for each key that rules ask for the first definition, in the order in
which they are asked for, and an empty line; without definitions there is no header. With the standard rules
these are the imports of `math` and of `numpy`, each if a block that is reached needs it, once, and in the
order in which the run comes to the blocks: along the chains, in the order of the sockets, and to each block
before those in its sockets. -/
theorem generate_header :
    (∀ (g : Generator) (w : Workspace) (source : String), g.generate w = .ok source →
      let header := (firstPerKey (g.definitions w)).map (·.2)
      ∃ codes, (g.outcome w).1 = .ok codes ∧ source =
        if header = [] then Text.join "\n" codes
        else Text.join "\n" header ++ "\n\n" ++ Text.join "\n" codes) ∧
    ∀ (w : Workspace) (indent : Nat) (source : String), Attained standard.shapes w →
      let g := standard.generator indent
      g.generate w = .ok source →
      let ids := (tops w).flatMap (preorder (callsOf w) maxDepth)
      let header := (importsOf w ids).eraseDups
      (ids.Nodup ∧ (∀ x, x ∈ ids ↔ Reached w x) ∧ (g.outcome w).2.visited = ids.reverse) ∧
      ("import math" ∈ header ↔ ∃ x b, Reached w x ∧ w.find? x = some b ∧ UsesMath b) ∧
      ("import numpy as np" ∈ header ↔
        ∃ x b, Reached w x ∧ w.find? x = some b ∧ b.type = "ndarray_zeros") ∧
      (∀ line ∈ header, line = "import math" ∨ line = "import numpy as np") ∧ header.Nodup ∧
      ∃ codes, (g.outcome w).1 = .ok codes ∧ source =
        if header = [] then Text.join "\n" codes
        else Text.join "\n" header ++ "\n\n" ++ Text.join "\n" codes := by
  constructor
  · intro g w source hok
    obtain ⟨codes, p, ho, -, hsource⟩ := Generator.header hok
    exact ⟨codes, by rw [ho], hsource.trans (assemble_eq _ _)⟩
  · intro w indent source h g hok
    have hg : g.rules = standard.rules := standard.generator_rules indent
    have hs : Sound True True w := h.sound standard_declared
    obtain ⟨codes, p, ho, hfaults, hsource⟩ := Generator.header hok
    have hout := outcome_standard hs (h.valid standard_declared) hg
    rw [ho] at hout ⊢
    obtain ⟨-, -, hran⟩ := hout
    have hordered := hran.ordered.trans (List.append_nil _)
    obtain ⟨new, hvisited, hnodup, hnew⟩ := hran.visited
    obtain rfl : p.visited = new := hvisited.trans (List.append_nil new)
    rw [Generator.definitions_eq hg ho hfaults, codes_firstPerKey, hordered,
      List.reverse_reverse] at hsource
    rw [hordered, List.nodup_reverse] at hnodup
    have hmem (x : BlockId) :
        x ∈ (tops w).flatMap (preorder (callsOf w) maxDepth) ↔ Reached w x := by
      rw [← List.mem_reverse, ← hordered, hnew, reached_iff hs]
    dsimp only
    simp only [List.mem_eraseDups, mem_importsOf, hmem, importOf_eq_math, importOf_eq_numpy]
    refine ⟨⟨hnodup, fun _ => trivial, hordered⟩, by simp, by simp, ?_, nodup_eraseDups _, codes, rfl, ?_⟩
    · rintro line ⟨x, -, b, -, hline⟩
      exact importOf_cases hline
    · exact hsource.trans (assemble_eq _ _)

/-- An array whose length is a root is printed before a logarithm; and two rules of another vocabulary ask
for one import, and for different definitions of one name. -/
theorem generate_header_of_nested :
    let w := [Action.add ⟨"main"⟩ "program_main" false, .add ⟨"first"⟩ "text_print" false,
      .connectStatement ⟨"main"⟩ "DO" ⟨"first"⟩, .add ⟨"zeros"⟩ "ndarray_zeros" false,
      .connectValue ⟨"first"⟩ "TEXT" ⟨"zeros"⟩, .add ⟨"root"⟩ "math_single" false,
      .connectValue ⟨"zeros"⟩ "DIM0" ⟨"root"⟩, .add ⟨"second"⟩ "text_print" false,
      .connectNext ⟨"first"⟩ ⟨"second"⟩, .add ⟨"log"⟩ "math_single" false,
      .setField ⟨"log"⟩ "OP" (.choice "LN"),
      .connectValue ⟨"second"⟩ "TEXT" ⟨"log"⟩].foldl Action.apply (.empty standard.shapes)
    let source := String.join ["import numpy as np\n", "import math\n", "\n", "def main():\n",
      "    print(np.zeros(math.sqrt(0)))\n", "    print(math.log(0))\n", "\n\n",
      "if __name__ == '__main__':\n", "    main()\n"]
    let v := [Action.add ⟨"print"⟩ "text_print" false, .add ⟨"number"⟩ "math_number" false,
      .connectValue ⟨"print"⟩ "TEXT" ⟨"number"⟩].foldl Action.apply (.empty standard.shapes)
    let g : Generator := { rules := ⟨[
      ("text_print", fun b => do
        requireImport "import numbers"
        let x ← valueOr b "TEXT" .whole "None"
        define "zero" "zero = None" (done (.statement (x ++ "\n")))),
      ("math_number", fun _ => define "zero" "zero = 0" do
        requireImport "import numbers"
        return .expression "zero" .atom)]⟩ }
    (Attained standard.shapes w ∧ (standard.generator 4).generate w = .ok source ∧
      (importsOf w ((tops w).flatMap (preorder (callsOf w) maxDepth))).eraseDups =
        ["import numpy as np", "import math"] ∧
      ∃ x b, Reached w x ∧ w.find? x = some b ∧ UsesMath b) ∧
    g.generate v = .ok "import numbers\nzero = 0\n\nzero\n" ∧
      (firstPerKey (g.definitions v)).map (·.2) = ["import numbers", "zero = 0"] ∧
      ∃ codes, (g.outcome v).1 = .ok codes ∧ "import numbers\nzero = 0\n\nzero\n" =
        Text.join "\n" ["import numbers", "zero = 0"] ++ "\n\n" ++ Text.join "\n" codes := by
  intro w source v g
  have hw : Attained standard.shapes w := .inl (Edited.empty.run _)
  have hok : (standard.generator 4).generate w = .ok source := by decide +kernel
  have hlines : (importsOf w ((tops w).flatMap (preorder (callsOf w) maxDepth))).eraseDups =
      ["import numpy as np", "import math"] := by decide +kernel
  have hmath := (generate_header.2 w 4 source hw hok).2.1
  have hgenerate : g.generate v = .ok "import numbers\nzero = 0\n\nzero\n" := by decide +kernel
  have hheader : (firstPerKey (g.definitions v)).map (·.2) = ["import numbers", "zero = 0"] := by
    decide +kernel
  obtain ⟨codes, hcodes, hsource⟩ := generate_header.1 g v _ hgenerate
  rw [hheader] at hsource
  refine ⟨⟨hw, hok, hlines, hmath.mp ?_⟩, hgenerate, hheader, codes, hcodes, hsource⟩
  rw [hlines]
  decide

end BlockProgram.Python
