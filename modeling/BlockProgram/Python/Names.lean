/-! Identifiers of a generated program. Every variable of the user has one identifier, every other
name that is handed out is new, and none is a keyword or a builtin that the program relies on. -/
namespace BlockProgram.Python

def reserved : List String :=
  ["False", "None", "True", "and", "as", "assert", "async", "await", "break", "class",
    "continue", "def", "del", "elif", "else", "except", "finally", "for", "from", "global",
    "if", "import", "in", "is", "lambda", "nonlocal", "not", "or", "pass", "raise", "return",
    "try", "while", "with", "yield", "abs", "all", "any", "bool", "dict", "enumerate",
    "filter", "float", "input", "int", "len", "list", "map", "max", "min", "next", "object",
    "open", "print", "range", "reversed", "round", "set", "sorted", "str", "sum", "tuple",
    "type", "zip", "math", "np"]

/-- A character as it stands in an identifier: only ASCII letters, digits and the underscore stay. -/
def sanitizedChar (c : Char) : Char := if c.isAlphanum || c = '_' then c else '_'

def sanitize (text : String) : String :=
  let chars := text.toList.map sanitizedChar
  let chars := if chars.isEmpty then "unnamed".toList else chars
  match chars with
  | c :: _ => String.ofList (if c.isDigit then '_' :: chars else chars)
  | [] => ""

/-- The names handed out so far. -/
structure Names where
  taken : List String := reserved
  /-- The identifier of each variable of the user. -/
  identifiers : List (String × String) := []
  deriving DecidableEq, Repr

/-- The first of `base` with `k`, `k + 1`, … after it that is free. A signed counter of 32 bits finds the same
name while fewer than `2 ^ 31` names of one base are taken. -/
def freeName (taken : List String) (base : String) : Nat → Nat → String
  | 0, k => base ++ toString k
  | fuel + 1, k =>
    let name := base ++ toString k
    if name ∈ taken then freeName taken base fuel (k + 1) else name

namespace Names

/-- A new identifier: `base`, or `base` with the first free number from two on. -/
def distinct (names : Names) (base : String) : String × Names :=
  let base := sanitize base
  let name := if base ∈ names.taken then freeName names.taken base names.taken.length 2 else base
  (name, { names with taken := names.taken ++ [name] })

/-- The identifier of a variable of the user; the same one for the same variable. -/
def variableName (names : Names) (user : String) : String × Names :=
  match names.identifiers.find? fun entry => entry.1 = user with
  | some entry => (entry.2, names)
  | none =>
    let (name, names) := names.distinct user
    (name, { names with identifiers := names.identifiers ++ [(user, name)] })

end Names

end BlockProgram.Python
