import BlockProgram.Proofs.Python.Calls
import BlockProgram.Proofs.Python.Denotation
import BlockProgram.Proofs.Python.Names
import BlockProgram.Proofs.Python.Syntax.Statement

/-! The statements that blocks stand for: their lines, each with what it says and with the lines in its suite.
A line is as deep as its block is nested in statement sockets. -/
namespace BlockProgram.Python

open Syntax Workspace

/-- A line of a program: the block that it is for, and what it says. -/
structure Statement where
  owner : BlockId
  /-- Whether the line is in a suite that the block has itself, in place of other blocks. -/
  filler : Bool
  head : Head

def Statement.own (b : Block) (head : Head) : Statement := ⟨b.id, false, head⟩

/-- A line in a suite of the block that holds no other blocks. -/
def Statement.fill (b : Block) (head : Head) : Statement := ⟨b.id, true, head⟩

namespace Syntax

/-- A number of turns. What is not an integer is made one. -/
def turnsTree (times : Expr) : Expr :=
  match times with
  | .integer n => .integer n
  | times => .call (.name "int") [times]

def guardTree : Expr := .compare (.name "__name__") [("==", .text "__main__")]

end Syntax

/-- The trees of the blocks in the sockets of a block. -/
def Trees (w : Workspace) (b : Block) (trees : String → Expr) : Prop :=
  ∀ socket c, used? b socket = some c → Denotes w (identifierIn w) c (trees socket)

mutual

/-- The lines of a block, given the trees of the blocks in its sockets. Names that are not those of
variables may be any names. -/
inductive Outlines (w : Workspace) : Block → (String → Expr) → Forest Statement → Prop where
  | assign {b : Block} {trees : String → Expr} (htype : b.type = "variables_set") :
      Outlines w b trees (.leaf (.own b (.assignment (identifierIn w (word b "VAR"))
        (operand b trees "VALUE" .nothing))))
  | print {b : Block} {trees : String → Expr} (htype : b.type = "text_print") :
      Outlines w b trees (.leaf (.own b (.expression
        (.call (.name "print") [operand b trees "TEXT" (.text "")]))))
  | repeatLoop {b : Block} {trees : String → Expr} {counter : String} {suite : Forest Statement}
      (htype : b.type = "controls_repeat_ext") (hcounter : Proper counter)
      (hsuite : SuiteOutlines w b "DO" suite) :
      Outlines w b trees (.cons (.own b (.forLoop counter
        (.call (.name "range") [turnsTree (operand b trees "TIMES" (.integer 0))]))) suite .nil)
  | whileLoop {b : Block} {trees : String → Expr} {suite : Forest Statement}
      (htype : b.type = "controls_whileUntil") (hmode : word b "MODE" = "WHILE")
      (hsuite : SuiteOutlines w b "DO" suite) :
      Outlines w b trees (.cons (.own b (.condition "while"
        (operand b trees "BOOL" (.truth false)))) suite .nil)
  | untilLoop {b : Block} {trees : String → Expr} {suite : Forest Statement}
      (htype : b.type = "controls_whileUntil") (hmode : word b "MODE" = "UNTIL")
      (hsuite : SuiteOutlines w b "DO" suite) :
      Outlines w b trees (.cons (.own b (.condition "while"
        (.not (operand b trees "BOOL" (.truth false))))) suite .nil)
  | eachLoop {b : Block} {trees : String → Expr} {suite : Forest Statement}
      (htype : b.type = "controls_for_each") (hsuite : SuiteOutlines w b "DO" suite) :
      Outlines w b trees (.cons (.own b (.forLoop (identifierIn w (word b "VAR"))
        (operand b trees "LIST" (.list [])))) suite .nil)
  | branch {b : Block} {trees : String → Expr} {n : Nat} {f : Forest Statement}
      (htype : b.type = "controls_if") (hm : b.mutation = .branches n false)
      (hbranches : BranchOutlines w b trees 0 (n + 1) f) : Outlines w b trees f
  | branchElse {b : Block} {trees : String → Expr} {n : Nat} {f suite : Forest Statement}
      (htype : b.type = "controls_if") (hm : b.mutation = .branches n true)
      (hbranches : BranchOutlines w b trees 0 (n + 1) f) (hsuite : SuiteOutlines w b "ELSE" suite) :
      Outlines w b trees (f.append (.cons (.own b .elseBranch) suite .nil))
  | noResult {b : Block} {trees : String → Expr} (htype : b.type = "controls_return")
      (hvalue : used? b "VALUE" = none) : Outlines w b trees (.leaf (.own b (.result none)))
  | result {b : Block} {trees : String → Expr} {c : BlockId} (htype : b.type = "controls_return")
      (hvalue : used? b "VALUE" = some c) :
      Outlines w b trees (.leaf (.own b (.result (some (trees "VALUE")))))
  | removed {b : Block} {trees : String → Expr} (htype : b.type = "lists_get_index")
      (hm : b.mutation = .variant "REMOVE") :
      Outlines w b trees (.leaf (.own b (.expression
        (.call (.member (operand b trees "VALUE" (.list [])) "pop")
          (indexTree? (word b "WHERE") (operand b trees "AT")).toList))))
  | entryPoint {b : Block} {trees : String → Expr} {name : String} {suite : Forest Statement}
      (htype : b.type = "program_main") (hname : Proper name)
      (hsuite : SuiteOutlines w b "DO" suite) :
      Outlines w b trees (.cons (.own b (.definition name)) suite
        (.cons (.own b (.condition "if" guardTree))
          (.leaf (.fill b (.expression (.call (.name name) [])))) .nil))

/-- The lines of branches with conditions, as many as the second number says, from a number on. -/
inductive BranchOutlines (w : Workspace) :
    Block → (String → Expr) → Nat → Nat → Forest Statement → Prop where
  | nil {b : Block} {trees : String → Expr} {start : Nat} : BranchOutlines w b trees start 0 .nil
  | cons {b : Block} {trees : String → Expr} {start count : Nat} {suite f : Forest Statement}
      (hsuite : SuiteOutlines w b ("DO" ++ toString start) suite)
      (hr : BranchOutlines w b trees (start + 1) count f) :
      BranchOutlines w b trees start (count + 1) (.cons (.own b (.condition
        (if start = 0 then "if" else "elif")
        (operand b trees ("IF" ++ toString start) (.truth false)))) suite f)

/-- The lines of a statement socket; one that is empty passes. -/
inductive SuiteOutlines (w : Workspace) : Block → String → Forest Statement → Prop where
  | pass {b : Block} {socket : String} (ht : b.target? socket = none) :
      SuiteOutlines w b socket (.leaf (.fill b .pass))
  | chain {b : Block} {socket : String} {t : BlockId} {f : Forest Statement}
      (ht : b.target? socket = some t) (hchain : ChainOutlines w (w.chain t) f) :
      SuiteOutlines w b socket f

/-- The lines of statements in a row. -/
inductive ChainOutlines (w : Workspace) : List BlockId → Forest Statement → Prop where
  | nil : ChainOutlines w [] .nil
  | cons {id : BlockId} {ids : List BlockId} {b : Block} {trees : String → Expr}
      {f g : Forest Statement} (hb : w.find? id = some b) (hstatement : b.connectors.output = false)
      (htrees : Trees w b trees) (h : Outlines w b trees f) (hr : ChainOutlines w ids g) :
      ChainOutlines w (id :: ids) (f.append g)

end

variable {w : Workspace} {b : Block} {trees : String → Expr} {ids ids' : List BlockId}
  {f g : Forest Statement} {socket : String} {id t : BlockId} {n start count : Nat} {head : Head}

theorem Outlines.ne_nil (h : Outlines w b trees f) : f ≠ .nil := by
  cases h with
  | branch _ _ h => cases h; nofun
  | branchElse _ _ h _ => cases h; nofun
  | _ => nofun

theorem ChainOutlines.ne_nil (h : ChainOutlines w ids f) (hne : ids ≠ []) : f ≠ .nil := by
  cases h with
  | nil => exact (hne rfl).elim
  | @cons _ _ _ _ f g _ _ _ h _ =>
    cases f with
    | nil => exact (h.ne_nil rfl).elim
    | cons => nofun

/-- Chains in a row have the outlines in a row. -/
theorem ChainOutlines.append (h : ChainOutlines w ids f) (h' : ChainOutlines w ids' g) :
    ChainOutlines w (ids ++ ids') (f.append g) := by
  induction ids generalizing f with
  | nil =>
    cases h
    exact h'
  | cons id ids ih =>
    cases h with
    | cons hb hstatement htrees h hr =>
      rw [Forest.append_assoc]
      exact .cons hb hstatement htrees h (ih hr)

theorem ChainOutlines.output (h : ChainOutlines w ids f) (hid : id ∈ ids) :
    ∃ d, w.find? id = some d ∧ d.connectors.output = false := by
  induction ids generalizing f with
  | nil => cases hid
  | cons id' ids ih =>
    cases h with
    | cons hb hstatement _ _ hr =>
      rcases List.mem_cons.mp hid with rfl | hid
      · exact ⟨_, hb, hstatement⟩
      · exact ih hr hid

/-- A line is as deep as its block is nested in statement sockets; in a suite that the block has itself it
is one level deeper. -/
def Stands (w : Workspace) (row : Nat × Statement) : Prop :=
  ∃ n, w.Indented row.2.owner n ∧ row.1 = if row.2.filler then n + 1 else n

private theorem stands_own (hn : w.Indented b.id n) : Stands w (n, .own b head) := ⟨n, hn, rfl⟩

private theorem stands_fill (hn : w.Indented b.id n) : Stands w (n + 1, .fill b head) := ⟨n, hn, rfl⟩

/-- Every line of the forest is as deep as its block is nested, if it starts at the given depth. -/
def AllStand (w : Workspace) (n : Nat) (f : Forest Statement) : Prop := ∀ row ∈ f.rows n, Stands w row

namespace AllStand

theorem nil : AllStand w n .nil := fun _ hrow => nomatch hrow

theorem cons {line : Statement} (hline : Stands w (n, line)) (hsuite : AllStand w (n + 1) f)
    (hrest : AllStand w n g) : AllStand w n (.cons line f g) :=
  List.forall_mem_cons.mpr ⟨hline, List.forall_mem_append.mpr ⟨hsuite, hrest⟩⟩

theorem leaf {line : Statement} (hline : Stands w (n, line)) : AllStand w n (.leaf line) :=
  cons hline nil nil

theorem append (hf : AllStand w n f) (hg : AllStand w n g) : AllStand w n (f.append g) := by
  unfold AllStand
  rw [Forest.rows_append]
  exact List.forall_mem_append.mpr ⟨hf, hg⟩

end AllStand

/-- What stands in a socket and is no expression stands in a statement socket. -/
theorem indented_target (hs : Sound True True w) (hb : w.find? b.id = some b)
    (hn : w.Indented b.id n) (ht : b.target? socket = some t) {d : Block} (hd : w.find? t = some d)
    (hstatement : d.connectors.output = false) : w.Indented t (n + 1) := by
  obtain ⟨k, hk, htarget⟩ := Option.bind_eq_some_iff.mp ht
  obtain rfl : k.name = socket := by simpa using List.find?_some hk
  have hmem : k ∈ b.sockets := List.mem_of_find?_eq_some hk
  obtain ⟨d', hd', hplain, htakes⟩ := takes_target hs hb hmem htarget
  obtain rfl := Option.some.inj (hd.symm.trans hd')
  have hkind : k.kind = .statement := by
    cases hkind : k.kind with
    | statement => rfl
    | value => simp [Socket.takes, hkind, hstatement] at htakes
    | dummy => exact (hplain hkind).elim
  refine .statement (parent?_of_target? hs.linked hb ht) ?_ hn
  unfold socketKind?
  rw [hb, Option.bind_some, hk, Option.map_some, hkind]

mutual

private theorem Outlines.stand (hs : Sound True True w) : ∀ {b : Block} {trees : String → Expr}
    {f : Forest Statement} {n : Nat}, Outlines w b trees f → w.find? b.id = some b →
      w.Indented b.id n → AllStand w n f
  | _, _, _, _, .assign _, _, hn => .leaf (stands_own hn)
  | _, _, _, _, .print _, _, hn => .leaf (stands_own hn)
  | _, _, _, _, .repeatLoop _ _ h, hb, hn => .cons (stands_own hn) (h.stand hs hb hn) .nil
  | _, _, _, _, .whileLoop _ _ h, hb, hn => .cons (stands_own hn) (h.stand hs hb hn) .nil
  | _, _, _, _, .untilLoop _ _ h, hb, hn => .cons (stands_own hn) (h.stand hs hb hn) .nil
  | _, _, _, _, .eachLoop _ h, hb, hn => .cons (stands_own hn) (h.stand hs hb hn) .nil
  | _, _, _, _, .branch _ _ h, hb, hn => h.stand hs hb hn
  | _, _, _, _, .branchElse _ _ h h', hb, hn =>
    (h.stand hs hb hn).append (.cons (stands_own hn) (h'.stand hs hb hn) .nil)
  | _, _, _, _, .noResult _ _, _, hn => .leaf (stands_own hn)
  | _, _, _, _, .result _ _, _, hn => .leaf (stands_own hn)
  | _, _, _, _, .removed _ _, _, hn => .leaf (stands_own hn)
  | _, _, _, _, .entryPoint _ _ h, hb, hn =>
    .cons (stands_own hn) (h.stand hs hb hn) (.cons (stands_own hn) (.leaf (stands_fill hn)) .nil)

private theorem BranchOutlines.stand (hs : Sound True True w) : ∀ {b : Block}
    {trees : String → Expr} {start count : Nat} {f : Forest Statement} {n : Nat},
    BranchOutlines w b trees start count f → w.find? b.id = some b → w.Indented b.id n →
      AllStand w n f
  | _, _, _, _, _, _, .nil, _, _ => .nil
  | _, _, _, _, _, _, .cons h hr, hb, hn => .cons (stands_own hn) (h.stand hs hb hn) (hr.stand hs hb hn)

private theorem SuiteOutlines.stand (hs : Sound True True w) : ∀ {b : Block} {socket : String}
    {f : Forest Statement} {n : Nat}, SuiteOutlines w b socket f → w.find? b.id = some b →
      w.Indented b.id n → AllStand w (n + 1) f
  | _, _, _, _, .pass _, _, hn => .leaf (stands_fill hn)
  | _, _, _, _, .chain ht h, hb, hn => by
    have hrow := row_of_target? hs hb ht
    obtain ⟨d, hd, hstatement⟩ := h.output hrow.head_mem
    exact h.stand hs (hrow.indented hs.linked (indented_target hs hb hn ht hd hstatement))

/-- The lines of blocks that are nested equally deep are as deep as their blocks. -/
theorem ChainOutlines.stand (hs : Sound True True w) : ∀ {ids : List BlockId} {f : Forest Statement}
    {n : Nat}, ChainOutlines w ids f → (∀ id ∈ ids, w.Indented id n) → AllStand w n f
  | _, _, _, .nil, _ => .nil
  | _, _, _, .cons hb _ _ h hr, hn => by
    obtain ⟨-, rfl⟩ := mem_of_find? hb
    obtain ⟨hid, hids⟩ := List.forall_mem_cons.mp hn
    exact (h.stand hs hb hid).append (hr.stand hs hids)

end

end BlockProgram.Python
