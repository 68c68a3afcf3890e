/-! How tightly the outermost operator of an expression binds, and the parentheses that follow from
it. -/
namespace BlockProgram.Python

/-- The levels of binding, from the tightest. -/
inductive Precedence where
  /-- Literals, names and forms in parentheses. -/
  | atom
  /-- Lists, dictionaries and tuples. -/
  | collection
  /-- Attributes and subscripts. -/
  | member
  | call
  | power
  /-- A sign before an operand. -/
  | sign
  /-- Products and quotients. -/
  | product
  /-- Sums and differences. -/
  | sum
  | comparison
  | negation
  | conjunction
  | disjunction
  | conditional
  /-- A whole expression, which never needs parentheses. -/
  | whole
  deriving DecidableEq, Repr

namespace Precedence

def levels : List Precedence :=
  [atom, collection, member, call, power, sign, product, sum, comparison, negation, conjunction,
    disjunction, conditional, whole]

def rank (p : Precedence) : Nat := levels.idxOf p

/-- The next tighter level. Right operands of operators that group to the left take it. -/
def tighter : Precedence → Precedence
  | atom => atom
  | collection => atom
  | member => collection
  | call => member
  | power => call
  | sign => power
  | product => sign
  | sum => product
  | comparison => sum
  | negation => comparison
  | conjunction => negation
  | disjunction => conjunction
  | conditional => disjunction
  | whole => conditional

/-- Whether an expression of this level binds less tightly than `bound`. -/
def isWeaker (p bound : Precedence) : Bool := bound.rank < p.rank

end Precedence

/-- An expression in parentheses if it binds less tightly than the place where it goes. -/
def parenthesize (code : String) (level bound : Precedence) : String :=
  if level.isWeaker bound then "(" ++ code ++ ")" else code

end BlockProgram.Python
