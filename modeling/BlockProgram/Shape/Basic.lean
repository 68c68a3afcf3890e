import BlockProgram.Block.Basic

/-! Shapes: what a block type looks like. A shape lists connectors, fields and fixed sockets, and says
how the rest of the sockets follows from the mutation of a block. -/
namespace BlockProgram

structure FieldSpec where
  name : String
  default : FieldValue
  /-- The values that a dropdown allows. -/
  choices : Option (List String) := none
  /-- The field holds the name of a variable of the user. -/
  isVariable : Bool := false
  deriving DecidableEq, Repr

namespace FieldSpec

def text (name value : String) : FieldSpec := ⟨name, .text value, none, false⟩

def number (name : String) (value : Binary64) : FieldSpec := ⟨name, .number value, none, false⟩

/-- A dropdown; its first choice is the default. -/
def dropdown (name : String) (choices : List String) : FieldSpec :=
  ⟨name, .choice (choices.headD ""), some choices, false⟩

def variableName (name value : String) : FieldSpec := ⟨name, .text value, none, true⟩

/-- Whether a value is of the kind of the field and among its choices. -/
def allows (spec : FieldSpec) (value : FieldValue) : Bool :=
  spec.default.sameKind value &&
    match spec.choices, value.string? with
    | some choices, some s => s ∈ choices
    | _, _ => true

end FieldSpec

structure SocketSpec where
  name : String
  kind : SocketKind
  accepts : Option (List String) := none
  label : Option String := none
  deriving DecidableEq, Repr

namespace SocketSpec

def value (name : String) : SocketSpec := { name, kind := .value }

def statement (name : String) : SocketSpec := { name, kind := .statement }

def dummy (name label : String) : SocketSpec := { name, kind := .dummy, label := some label }

def accepting (types : List String) (spec : SocketSpec) : SocketSpec :=
  { spec with accepts := some types }

def labelled (label : String) (spec : SocketSpec) : SocketSpec := { spec with label := some label }

def instantiate (spec : SocketSpec) (structural : Bool) : Socket :=
  { name := spec.name, kind := spec.kind, accepts := spec.accepts, label := spec.label
    structural, target := none }

end SocketSpec

/-- A repeated group of sockets. Unit `i` has one socket per template, named by the template and
`i`. -/
structure RepeatSpec where
  /-- The kind of unit that stands for the group in a satellite. -/
  placeholder : String
  templates : List SocketSpec
  firstLabel : Option String := none
  /-- The label shown instead of units when there are none. -/
  emptyLabel : Option String := none
  /-- The number field that shows and sets the number of units. -/
  countField : Option String := none
  initial : Nat := 0
  deriving DecidableEq, Repr

/-- A named form of a block with its own connectors. -/
structure VariantSpec where
  name : String
  connectors : Connectors
  deriving DecidableEq, Repr

/-- How blocks of a type reshape themselves. -/
inductive Mutator where
  | fixed
  | repeats (spec : RepeatSpec)
  /-- Else-if branches and an optional else branch. -/
  | branches
  /-- Named variants, selected by a dropdown field. -/
  | variants (field : String) (list : List VariantSpec)
  deriving DecidableEq, Repr

structure Shape where
  type : String
  connectors : Connectors
  fields : List FieldSpec := []
  /-- The sockets that every block of the type has, before the ones of its mutation. -/
  sockets : List SocketSpec := []
  mutator : Mutator := .fixed
  /-- A program starts at a block of this type. -/
  entryPoint : Bool := false
  deriving DecidableEq, Repr

namespace Shape

def elseIfUnit : String := "controls_if_elseif"

def elseUnit : String := "controls_if_else"

/-- The socket that carries the label of an empty repeated group. -/
def emptySocket : String := "EMPTY"

def fieldSpec? (shape : Shape) (name : String) : Option FieldSpec :=
  shape.fields.find? fun f => f.name = name

def defaults (shape : Shape) : Fields :=
  Fields.ofList (shape.fields.map fun f => (f.name, f.default))

def variantNames (list : List VariantSpec) : List String := list.map (·.name)

def initial (shape : Shape) : Mutation :=
  match shape.mutator with
  | .fixed => .fixed
  | .repeats spec => .items spec.initial
  | .branches => .branches 0 false
  | .variants field list =>
    let chosen := ((shape.fieldSpec? field).bind (·.default.string?)).filter
      fun name => name ∈ variantNames list
    .variant (chosen.getD ((variantNames list).headD ""))

def accepts (shape : Shape) (m : Mutation) : Bool :=
  match shape.mutator, m with
  | .fixed, .fixed => true
  | .repeats _, .items n => n ≤ Mutation.maxUnits
  | .branches, .branches n _ => n ≤ Mutation.maxUnits
  | .variants _ list, .variant name => name ∈ variantNames list
  | _, _ => false

def connectorsOf (shape : Shape) (m : Mutation) : Connectors :=
  match shape.mutator, m with
  | .variants _ list, .variant name =>
    match list.find? fun v => v.name = name with
    | some v => v.connectors
    | none => shape.connectors
  | _, _ => shape.connectors

end Shape

namespace RepeatSpec

def unitNames (spec : RepeatSpec) (i : Nat) : List String :=
  spec.templates.map fun t => t.name ++ toString i

/-- The sockets of one unit. The first socket of the first unit takes the first label. -/
def unitSockets (spec : RepeatSpec) (i : Nat) : List Socket :=
  spec.templates.mapIdx fun j t =>
    let label := if i = 0 ∧ j = 0 ∧ spec.firstLabel.isSome then spec.firstLabel else t.label
    { t with name := t.name ++ toString i, label }.instantiate true

/-- The sockets of `count` units, or the label of an empty group. -/
def sockets (spec : RepeatSpec) (count : Nat) : List Socket :=
  let label := if count = 0 then
      spec.emptyLabel.toList.map fun l => (SocketSpec.dummy Shape.emptySocket l).instantiate true
    else []
  label ++ (List.range count).flatMap spec.unitSockets

end RepeatSpec

namespace Shape

/-- The names of the sockets of the `k`-th else-if branch, counted from one. -/
def elseIfNames (k : Nat) : List String := ["IF" ++ toString k, "DO" ++ toString k]

def elseIfSockets (k : Nat) : List Socket :=
  [(SocketSpec.value ("IF" ++ toString k) |>.accepting ["Boolean"] |>.labelled "else if").instantiate
    true,
   (SocketSpec.statement ("DO" ++ toString k) |>.labelled "do").instantiate true]

def elseSocket : Socket := (SocketSpec.statement "ELSE" |>.labelled "else").instantiate true

def mutableSockets (shape : Shape) (m : Mutation) : List Socket :=
  match shape.mutator, m with
  | .repeats spec, .items n => spec.sockets n
  | .branches, .branches n hasElse =>
    (List.range n).flatMap (fun i => elseIfSockets (i + 1)) ++ (if hasElse then [elseSocket] else [])
  | _, _ => []

def layout (shape : Shape) (m : Mutation) : List Socket :=
  shape.sockets.map (·.instantiate false) ++ shape.mutableSockets m

end Shape

/-- A kind of unit in the satellites of a shape, with the largest number of such units. -/
structure Placeholder where
  kind : String
  max : Option Nat
  deriving DecidableEq, Repr

namespace Shape

def placeholders (shape : Shape) : List Placeholder :=
  match shape.mutator with
  | .repeats spec => [⟨spec.placeholder, none⟩]
  | .branches => [⟨elseIfUnit, none⟩, ⟨elseUnit, some 1⟩]
  | .fixed => []
  | .variants _ _ => []

def unitsOf (shape : Shape) (m : Mutation) : List String :=
  match shape.mutator, m with
  | .repeats spec, .items n => List.replicate n spec.placeholder
  | .branches, .branches n hasElse =>
    List.replicate n elseIfUnit ++ (if hasElse then [elseUnit] else [])
  | _, _ => []

/-- The socket names of branch units. Else-if units are numbered among themselves, after the `k`
before them; the else unit has one socket wherever it stands. -/
def branchUnitNames : Nat → List String → List (List String)
  | _, [] => []
  | k, kind :: rest =>
    if kind = elseUnit then ["ELSE"] :: branchUnitNames k rest
    else elseIfNames (k + 1) :: branchUnitNames (k + 1) rest

/-- The names of the sockets that each unit has, in the order of the units. -/
def unitSocketNames (shape : Shape) (kinds : List String) : List (List String) :=
  match shape.mutator with
  | .repeats spec => (List.range kinds.length).map spec.unitNames
  | .branches => branchUnitNames 0 kinds
  | .fixed => []
  | .variants _ _ => []

end Shape

/-- The shapes of a vocabulary, in the order of their first registration. -/
structure ShapeRegistry where
  shapes : List Shape := []
  deriving DecidableEq, Repr

namespace ShapeRegistry

def get? (registry : ShapeRegistry) (type : String) : Option Shape :=
  registry.shapes.find? fun s => s.type = type

/-- Add a shape, or replace the one of the same type where it stands. -/
def register (registry : ShapeRegistry) (shape : Shape) : ShapeRegistry :=
  if (registry.get? shape.type).isSome then
    ⟨registry.shapes.map fun s => if s.type = shape.type then shape else s⟩
  else ⟨registry.shapes ++ [shape]⟩

end ShapeRegistry

end BlockProgram
