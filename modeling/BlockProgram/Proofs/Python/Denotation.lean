import BlockProgram.Number.Decimal
import BlockProgram.Proofs.Python.Beneath
import BlockProgram.Proofs.Python.Syntax.Grammar
import Mathlib.Algebra.Group.Nat.Defs

/-! The expressions that blocks stand for, as syntax trees. The tree of a block is put together from its
fields and from the trees of the blocks in its sockets; an empty socket stands for a default. -/
namespace BlockProgram.Python

open Syntax

namespace Syntax

/-- The operands of a disjunction; of any other expression, the expression. -/
def Expr.disjuncts : Expr → List Expr
  | .any xs => xs
  | e => [e]

/-- The operands of a conjunction; of any other expression, the expression. -/
def Expr.conjuncts : Expr → List Expr
  | .all xs => xs
  | e => [e]

def Expr.isNumber : Expr → Bool
  | .integer _ => true
  | .decimal _ _ => true
  | _ => false

/-- The literal of a decimal: an integer, or digits with a point before the last places. -/
def decimalTree (d : Decimal) : Expr :=
  if 0 ≤ d.exponent then .integer (d.digits * 10 ^ d.exponent.toNat)
  else .decimal d.digits (-d.exponent).toNat

/-- A number is a literal, with a minus before it if it is below zero. Small integers are exact, other
numbers the shortest decimals that read back. Infinities and NaN are made from texts. -/
def numberTree (n : Binary64) : Expr :=
  match n.value with
  | .nan => .call (.name "float") [.text "nan"]
  | .infinite negative => .call (.name "float") [.text (if negative then "-inf" else "inf")]
  | .finite _ mantissa exponent =>
    let size :=
      if n.isIntegral && n.truncated < Nat.pow 10 15 then .integer n.truncated
      else decimalTree (Decimal.shortest .up mantissa exponent)
    if n.isBelowZero then .negative size else size

def arithmeticTree (op : String) (x y : Expr) : Expr :=
  match op with
  | "ADD" => .binary "+" x y
  | "MINUS" => .binary "-" x y
  | "MULTIPLY" => .binary "*" x y
  | "DIVIDE" => .binary "/" x y
  | _ => .binary "**" x y

def singleTree (op : String) (x : Expr) : Expr :=
  match op with
  | "NEG" => .negative x
  | "POW10" => .binary "**" (.integer 10) x
  | "ABS" => .call (.name "abs") [x]
  | "ROOT" => .call (.member (.name "math") "sqrt") [x]
  | "LN" => .call (.member (.name "math") "log") [x]
  | "LOG10" => .call (.member (.name "math") "log10") [x]
  | _ => .call (.member (.name "math") "exp") [x]

def compareTree (op : String) (x y : Expr) : Expr :=
  match op with
  | "EQ" => .compare x [("==", y)]
  | "NEQ" => .compare x [("!=", y)]
  | "LT" => .compare x [("<", y)]
  | "LTE" => .compare x [("<=", y)]
  | "GT" => .compare x [(">", y)]
  | _ => .compare x [(">=", y)]

/-- Each part is made a text; two are added, more are joined. -/
def joinedTree (parts : List Expr) : Expr :=
  match parts.map fun part => .call (.name "str") [part] with
  | [] => .text ""
  | [only] => only
  | [x, y] => .binary "+" x y
  | parts => .call (.member (.text "") "join") [.list parts]

/-- The shape of an array is a number, or a tuple unless there is one dimension. -/
def zerosTree (dims : List Expr) : Expr :=
  .call (.member (.name "np") "zeros") [match dims with
    | [only] => only
    | dims => .tuple dims]

/-- The index of an element. The last one has index -1, or none if it is taken out of the list. -/
def indexTree? (place : String) (index : Expr → Expr) : Option Expr :=
  match place with
  | "FIRST" => some (.integer 0)
  | "LAST" => none
  | "FROM_START" => some (index (.integer 0))
  | _ => some (.negative (index (.integer 1)))

end Syntax

def word (b : Block) (name : String) : String := ((b.field? name).bind (·.string?)).getD ""

def numeral (b : Block) (name : String) : Binary64 := ((b.field? name).bind (·.number?)).getD .zero

/-- The block that a socket holds and that is asked for. -/
def used? (b : Block) (socket : String) : Option BlockId :=
  if Unused b socket then none else b.target? socket

/-- What a socket stands for, given the trees of the blocks in the sockets: a default if it is empty. -/
def operand (b : Block) (trees : String → Expr) (socket : String) (default : Expr) : Expr :=
  if (used? b socket).isSome then trees socket else default

def unitCount (b : Block) : Nat :=
  match b.mutation with
  | .items n => n
  | _ => 0

/-- The tree of a block, given the identifiers of variables and the trees of the blocks in the sockets.
An empty side of a conjunction is true unless both are, an empty side of a disjunction is false. -/
def blockTree (identifier : String → String) (b : Block) (trees : String → Expr) : Expr :=
  let x := operand b trees
  let xs (name : String) (default : Expr) :=
    (List.range' 0 (unitCount b)).map fun i => x (name ++ toString i) default
  match b.type with
  | "math_number" => numberTree (numeral b "NUM")
  | "text" => .text (word b "TEXT")
  | "logic_boolean" => .truth (word b "BOOL" = "TRUE")
  | "logic_null" => .nothing
  | "variables_get" => .name (identifier (word b "VAR"))
  | "math_arithmetic" => arithmeticTree (word b "OP") (x "A" (.integer 0)) (x "B" (.integer 0))
  | "math_single" => singleTree (word b "OP") (x "NUM" (.integer 0))
  | "logic_compare" => compareTree (word b "OP") (x "A" .nothing) (x "B" .nothing)
  | "logic_operation" =>
    if word b "OP" = "AND" then
      let identity := .truth ((used? b "A").isSome || (used? b "B").isSome)
      .all ((x "A" identity).conjuncts ++ (x "B" identity).conjuncts)
    else .any ((x "A" (.truth false)).disjuncts ++ (x "B" (.truth false)).disjuncts)
  | "logic_negate" => .not (x "BOOL" (.truth true))
  | "lists_create_with" => .list (xs "ITEM" .nothing)
  | "dicts_create_with" => .dictionary ((xs "KEY" .nothing).zip (xs "VALUE" .nothing))
  | "text_join" => joinedTree (xs "ITEM" (.text ""))
  | "lists_get_index" =>
    let list := x "VALUE" (.list [])
    let index? := indexTree? (word b "WHERE") (x "AT")
    if b.mutation = .variant "GET_REMOVE" then .call (.member list "pop") index?.toList
    else .subscript list (index?.getD (.negative (.integer 1)))
  | "ndarray_zeros" => zerosTree (xs "DIM" (.integer 1))
  | _ => .nothing

/-- The block of the id stands for the tree. -/
inductive Denotes (w : Workspace) (identifier : String → String) : BlockId → Expr → Prop where
  | block {id : BlockId} {b : Block} {trees : String → Expr} (hb : w.find? id = some b)
      (htrees : ∀ socket c, used? b socket = some c → Denotes w identifier c (trees socket)) :
      Denotes w identifier id (blockTree identifier b trees)

variable {w : Workspace} {identifier : String → String} {id c : BlockId} {b : Block} {e e' : Expr}
  {trees trees' : String → Expr} {socket : String} {n : Nat}

/-- The tree of a block depends on those of its sockets alone. -/
theorem blockTree_congr (h : ∀ socket c, used? b socket = some c → trees socket = trees' socket) :
    blockTree identifier b trees = blockTree identifier b trees' := by
  have hoperand : operand b trees = operand b trees' := by
    funext socket default
    unfold operand
    cases hu : used? b socket with
    | none => rfl
    | some c => exact h socket c hu
  unfold blockTree
  rw [hoperand]

/-- A block that stands for a tree makes it of the trees that its used sockets stand for. -/
theorem Denotes.exists_trees (h : Denotes w identifier id e) : ∃ b trees, w.find? id = some b ∧
    (∀ socket c, used? b socket = some c → Denotes w identifier c (trees socket)) ∧
      e = blockTree identifier b trees := by
  obtain ⟨hb, htrees⟩ := h
  exact ⟨_, _, hb, htrees, rfl⟩

/-- A block stands for one tree at most. -/
theorem Denotes.unique (h : Denotes w identifier id e) (h' : Denotes w identifier id e') : e = e' := by
  induction h generalizing e' with
  | block hb htrees ih =>
    obtain ⟨hb', htrees'⟩ := h'
    obtain rfl := Option.some.inj (hb.symm.trans hb')
    exact blockTree_congr fun socket c hu => ih socket c hu (htrees' socket c hu)

/-- Only the block of a number stands for a literal of a number. -/
theorem isNumber_blockTree (hne : b.type ≠ "math_number") :
    (blockTree identifier b trees).isNumber = false := by
  have harithmetic (op : String) (x y : Expr) : (arithmeticTree op x y).isNumber = false := by
    unfold arithmeticTree
    split <;> rfl
  have hsingle (op : String) (x : Expr) : (singleTree op x).isNumber = false := by
    unfold singleTree
    split <;> rfl
  have hcompare (op : String) (x y : Expr) : (compareTree op x y).isNumber = false := by
    unfold compareTree
    split <;> rfl
  have hjoined (parts : List Expr) : (joinedTree parts).isNumber = false := by
    rcases parts with _ | ⟨x, _ | ⟨y, _ | ⟨z, parts⟩⟩⟩ <;> rfl
  unfold blockTree
  dsimp only
  split
  any_goals rfl
  · rename_i htype
    exact (hne htype).elim
  · exact harithmetic _ _ _
  · exact hsingle _ _
  · exact hcompare _ _ _
  · split <;> rfl
  · exact hjoined _
  · split <;> rfl

/-- A block stands for a tree if there is an end to the blocks beneath it. -/
theorem exists_denotes {next : BlockId → List BlockId} {levels : Nat}
    (hshallow : Shallow next levels id)
    (hknown : ∀ x n, Within next id x n → ∃ b, w.find? x = some b ∧
      ∀ socket c, used? b socket = some c → c ∈ next x) : ∃ e, Denotes w identifier id e := by
  induction levels generalizing id with
  | zero => exact absurd (hshallow id 0 .self) (Nat.not_lt_zero 0)
  | succ levels ih =>
    obtain ⟨b, hb, hused⟩ := hknown id 0 .self
    have htree (socket : String) : ∃ e, ∀ c, used? b socket = some c → Denotes w identifier c e := by
      cases hu : used? b socket with
      | none => exact ⟨.nothing, nofun⟩
      | some c =>
        have hc := hused socket c hu
        obtain ⟨e, he⟩ := ih (shallow_succ.mp hshallow c hc) fun x n hx => hknown x (n + 1) (hx.cons hc)
        refine ⟨e, fun d hd => ?_⟩
        obtain rfl := Option.some.inj hd
        exact he
    choose trees htrees using htree
    exact ⟨_, .block hb htrees⟩

end BlockProgram.Python
