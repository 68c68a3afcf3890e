import BlockProgram.Proofs.Python.Calls
import BlockProgram.Proofs.Shape.Declared
import BlockProgram.Python.Vocabulary

/-! The rules of the standard vocabulary serve their shapes. On a block that is valid for its shape, a rule
asks for the blocks in the sockets, one after the other, and ends with an expression exactly if the block
has an output. -/
namespace BlockProgram

theorem Shape.slots_of_layout {shape : Shape} {m : Mutation} {sockets : List Socket}
    (h : sockets.map Socket.emptied = shape.layout m) :
    sockets.map (fun k => (k.name, k.kind)) = shape.slots m := by
  unfold slots
  rw [← h, List.map_map]
  rfl

namespace Python

def Fragment.isExpression : Fragment → Bool
  | .expression _ _ => true
  | .statement _ => false

/-- A block as its shape has it, where every socket holds what belongs there. -/
structure Formed (shape : Shape) (A : Answers) (w : Workspace) (b : Block) : Prop where
  type : b.type = shape.type
  sockets : b.sockets.map (fun k => (k.name, k.kind)) = shape.slots b.mutation
  names : (b.sockets.map (·.name)).Nodup
  accepts : shape.accepts b.mutation
  fills : shape.Fills b.fields
  values : ∀ k ∈ b.sockets, k.kind = .value → ∀ c ∈ k.target, ∀ code,
    ¬ A.fragment c (.statement code)
  statements : ∀ k ∈ b.sockets, k.kind = .statement → ∀ h ∈ k.target, ∀ c ∈ w.chain h,
    ∀ code level, ¬ A.fragment c (.expression code level)

/-- What a value socket holds has answered with `v`; an empty one gives nothing. -/
def Filled (A : Answers) (b : Block) (socket : String) (bound : Precedence) (v : Option String) :
    Prop :=
  match b.target? socket with
  | none => v = none
  | some c => ∃ code level, A.fragment c (.expression code level) ∧
      v = some (parenthesize code level bound)

/-- The text of an operand: what the socket holds, or a default. -/
def Operand (A : Answers) (b : Block) (socket : String) (bound : Precedence)
    (default text : String) : Prop :=
  ∃ v, Filled A b socket bound v ∧ text = v.getD default

/-- The texts of as many operands, in sockets with numbers from `start` on. -/
def Operands (A : Answers) (b : Block) (name default : String) (start count : Nat)
    (texts : List String) : Prop :=
  List.Forall₂ (fun i text => Operand A b (name ++ toString i) .whole default text)
    (List.range' start count) texts

def Entry (A : Answers) (b : Block) (i : Nat) (text : String) : Prop :=
  ∃ key value, Operand A b ("KEY" ++ toString i) .whole "None" key ∧
    Operand A b ("VALUE" ++ toString i) .whole "None" value ∧ text = key ++ ": " ++ value

/-- The index of an element, or nothing for the last one. -/
inductive ElementIndex (A : Answers) (b : Block) : String → Option String → Prop where
  | first : ElementIndex A b "FIRST" (some "0")
  | last : ElementIndex A b "LAST" none
  | fromStart {x : String} (hx : Operand A b "AT" .whole "0" x) :
      ElementIndex A b "FROM_START" (some x)
  | fromEnd {x : String} (hx : Operand A b "AT" .sign "1" x) :
      ElementIndex A b "FROM_END" (some ("-" ++ x))

/-- The text that the rule of an expression gives, by the type of the block. -/
inductive ExpressionText (A : Answers) (b : Block) : Fragment → Prop where
  | number {n : Binary64} (htype : b.type = "math_number")
      (hf : b.field? "NUM" = some (.number n)) :
      ExpressionText A b (.expression (numberLiteral n)
        (if !n.isFinite then .call else if n.isBelowZero then .sign else .atom))
  | text {t : String} (htype : b.type = "text") (hf : b.field? "TEXT" = some (.text t)) :
      ExpressionText A b (.expression (textLiteral t) .atom)
  | truthValue {c : String} (htype : b.type = "logic_boolean")
      (hf : b.field? "BOOL" = some (.choice c)) :
      ExpressionText A b (.expression (if c = "TRUE" then "True" else "False") .atom)
  | nothing (htype : b.type = "logic_null") : ExpressionText A b (.expression "None" .atom)
  | variableGet {user name : String} (htype : b.type = "variables_get")
      (hf : b.field? "VAR" = some (.text user)) (hname : A.identifier user name) :
      ExpressionText A b (.expression name .atom)
  | arithmetic {op operator x y : String} {level left right : Precedence}
      (htype : b.type = "math_arithmetic") (hf : b.field? "OP" = some (.choice op))
      (hop : op ∈ Rules.arithmeticNames)
      (hoperator : Rules.arithmeticOperator op = (operator, level))
      (hbounds : Rules.operandBounds level = (left, right))
      (hx : Operand A b "A" left "0" x) (hy : Operand A b "B" right "0" y) :
      ExpressionText A b (.expression (x ++ operator ++ y) level)
  | negative {x : String} (htype : b.type = "math_single")
      (hf : b.field? "OP" = some (.choice "NEG")) (hx : Operand A b "NUM" .sign "0" x) :
      ExpressionText A b (.expression ("-" ++ x) .sign)
  | powerOfTen {x : String} (htype : b.type = "math_single")
      (hf : b.field? "OP" = some (.choice "POW10")) (hx : Operand A b "NUM" .sign "0" x) :
      ExpressionText A b (.expression ("10 ** " ++ x) .power)
  | absolute {x : String} (htype : b.type = "math_single")
      (hf : b.field? "OP" = some (.choice "ABS")) (hx : Operand A b "NUM" .whole "0" x) :
      ExpressionText A b (.expression ("abs(" ++ x ++ ")") .call)
  | function {op x : String} (htype : b.type = "math_single")
      (hf : b.field? "OP" = some (.choice op)) (hop : op ∈ ["ROOT", "LN", "LOG10", "EXP"])
      (hx : Operand A b "NUM" .whole "0" x) :
      ExpressionText A b (.expression (Rules.mathFunction op ++ "(" ++ x ++ ")") .call)
  | compare {op x y : String} (htype : b.type = "logic_compare")
      (hf : b.field? "OP" = some (.choice op)) (hop : op ∈ Rules.compareNames)
      (hx : Operand A b "A" .sum "None" x) (hy : Operand A b "B" .sum "None" y) :
      ExpressionText A b (.expression (x ++ " " ++ Rules.compareOperator op ++ " " ++ y) .comparison)
  | conjunction {x y : Option String} (htype : b.type = "logic_operation")
      (hf : b.field? "OP" = some (.choice "AND"))
      (hx : Filled A b "A" .conjunction x) (hy : Filled A b "B" .conjunction y) :
      ExpressionText A b (.expression (x.getD (if x.isSome || y.isSome then "True" else "False") ++
        " and " ++ y.getD (if x.isSome || y.isSome then "True" else "False")) .conjunction)
  | disjunction {x y : String} (htype : b.type = "logic_operation")
      (hf : b.field? "OP" = some (.choice "OR"))
      (hx : Operand A b "A" .disjunction "False" x) (hy : Operand A b "B" .disjunction "False" y) :
      ExpressionText A b (.expression (x ++ " or " ++ y) .disjunction)
  | negate {x : String} (htype : b.type = "logic_negate")
      (hx : Operand A b "BOOL" .negation "True" x) :
      ExpressionText A b (.expression ("not " ++ x) .negation)
  | list {n : Nat} {texts : List String} (htype : b.type = "lists_create_with")
      (hm : b.mutation = .items n) (hv : Operands A b "ITEM" "None" 0 n texts) :
      ExpressionText A b (.expression ("[" ++ Text.join ", " texts ++ "]") .collection)
  | dictionary {n : Nat} {texts : List String} (htype : b.type = "dicts_create_with")
      (hm : b.mutation = .items n)
      (hv : List.Forall₂ (Entry A b) (List.range' 0 n) texts) :
      ExpressionText A b (.expression ("\x7b" ++ Text.join ", " texts ++ "\x7d") .collection)
  | joined {n : Nat} {texts : List String} (htype : b.type = "text_join")
      (hm : b.mutation = .items n) (hv : Operands A b "ITEM" "''" 0 n texts) :
      ExpressionText A b (match texts.map fun p => "str(" ++ p ++ ")" with
        | [] => .expression "''" .atom
        | [only] => .expression only .call
        | [x, y] => .expression (x ++ " + " ++ y) .sum
        | parts => .expression ("''.join([" ++ Text.join ", " parts ++ "])") .call)
  | element {place list : String} {index : Option String} (htype : b.type = "lists_get_index")
      (hm : b.mutation = .variant "GET") (hf : b.field? "WHERE" = some (.choice place))
      (hl : Operand A b "VALUE" .call "[]" list) (hi : ElementIndex A b place index) :
      ExpressionText A b (.expression (list ++ "[" ++ index.getD "-1" ++ "]") .member)
  | taken {place list : String} {index : Option String} (htype : b.type = "lists_get_index")
      (hm : b.mutation = .variant "GET_REMOVE") (hf : b.field? "WHERE" = some (.choice place))
      (hl : Operand A b "VALUE" .call "[]" list) (hi : ElementIndex A b place index) :
      ExpressionText A b (.expression (list ++ ".pop(" ++ index.getD "" ++ ")") .call)
  | zeros {n : Nat} {texts : List String} (htype : b.type = "ndarray_zeros")
      (hm : b.mutation = .items n) (hv : Operands A b "DIM" "1" 0 n texts) :
      ExpressionText A b (.expression ("np.zeros(" ++ (match texts with
        | [] => "()"
        | [only] => only
        | dims => "(" ++ Text.join ", " dims ++ ")") ++ ")") .call)

/-- The text of branches with conditions, as many as the second number says, from a number on. -/
inductive BranchText (s : Setting) (A : Answers) (b : Block) : Nat → Nat → String → Prop where
  | nil {start : Nat} : BranchText s A b start 0 ""
  | cons {start count : Nat} {x body more : String}
      (hx : Operand A b ("IF" ++ toString start) .whole "False" x)
      (hbody : BodyText s A b ("DO" ++ toString start) body)
      (hr : BranchText s A b (start + 1) count more) :
      BranchText s A b start (count + 1)
        ((if start = 0 then "if " else "elif ") ++ x ++ ":\n" ++ body ++ more)

/-- The text that the rule of a statement gives, by the type of the block. -/
inductive StatementText (s : Setting) (A : Answers) (b : Block) : String → Prop where
  | assign {user name x : String} (htype : b.type = "variables_set")
      (hf : b.field? "VAR" = some (.text user)) (hname : A.identifier user name)
      (hx : Operand A b "VALUE" .whole "None" x) :
      StatementText s A b (name ++ " = " ++ x ++ "\n")
  | print {x : String} (htype : b.type = "text_print") (hx : Operand A b "TEXT" .whole "''" x) :
      StatementText s A b ("print(" ++ x ++ ")\n")
  | repeatLoop {x counter body : String} (htype : b.type = "controls_repeat_ext")
      (hx : Operand A b "TIMES" .whole "0" x) (hcounter : A.fresh counter)
      (hbody : BodyText s A b "DO" body) :
      StatementText s A b ("for " ++ counter ++ " in range(" ++ Rules.turns x ++ "):\n" ++ body)
  | whileLoop {x body : String} (htype : b.type = "controls_whileUntil")
      (hf : b.field? "MODE" = some (.choice "WHILE")) (hx : Operand A b "BOOL" .whole "False" x)
      (hbody : BodyText s A b "DO" body) : StatementText s A b ("while " ++ x ++ ":\n" ++ body)
  | untilLoop {x body : String} (htype : b.type = "controls_whileUntil")
      (hf : b.field? "MODE" = some (.choice "UNTIL")) (hx : Operand A b "BOOL" .negation "False" x)
      (hbody : BodyText s A b "DO" body) :
      StatementText s A b ("while " ++ ("not " ++ x) ++ ":\n" ++ body)
  | eachLoop {user name x body : String} (htype : b.type = "controls_for_each")
      (hf : b.field? "VAR" = some (.text user)) (hname : A.identifier user name)
      (hx : Operand A b "LIST" .comparison "[]" x) (hbody : BodyText s A b "DO" body) :
      StatementText s A b ("for " ++ name ++ " in " ++ x ++ ":\n" ++ body)
  | branch {n : Nat} {code : String} (htype : b.type = "controls_if")
      (hm : b.mutation = .branches n false) (hbranches : BranchText s A b 0 (n + 1) code) :
      StatementText s A b code
  | branchElse {n : Nat} {code body : String} (htype : b.type = "controls_if")
      (hm : b.mutation = .branches n true) (hbranches : BranchText s A b 0 (n + 1) code)
      (hbody : BodyText s A b "ELSE" body) : StatementText s A b (code ++ "else:\n" ++ body)
  | noResult (htype : b.type = "controls_return") (hx : Filled A b "VALUE" .whole none) :
      StatementText s A b "return\n"
  | result {x : String} (htype : b.type = "controls_return")
      (hx : Filled A b "VALUE" .whole (some x)) : StatementText s A b ("return " ++ x ++ "\n")
  | removed {place list : String} {index : Option String} (htype : b.type = "lists_get_index")
      (hm : b.mutation = .variant "REMOVE") (hf : b.field? "WHERE" = some (.choice place))
      (hl : Operand A b "VALUE" .call "[]" list) (hi : ElementIndex A b place index) :
      StatementText s A b (list ++ ".pop(" ++ index.getD "" ++ ")\n")
  | entryPoint {name body : String} (htype : b.type = "program_main") (hname : A.fresh name)
      (hbody : BodyText s A b "DO" body) :
      StatementText s A b ("def " ++ name ++ "():\n" ++ body ++
        "\n\nif __name__ == '__main__':\n" ++ s.indent ++ name ++ "()\n")

def RuleText (s : Setting) (A : Answers) (b : Block) : Fragment → Prop
  | .expression code level => ExpressionText A b (.expression code level)
  | .statement code => StatementText s A b code

/-- Whatever the answers are, the rule asks for the blocks in the sockets and ends with a text of the
kind of the block. -/
def Serves (shape : Shape) (rule : Rule) : Prop :=
  ∀ {s : Setting} {A : Answers} {b : Block}, Formed shape A s.workspace b →
    (rule b).Ensures s A
      (fun f rest => rest = [] ∧ f.isExpression = (shape.connectorsOf b.mutation).output ∧
        RuleText s A b f)
      (calls s.workspace b)

variable {shape : Shape} {A : Answers} {s : Setting} {w : Workspace} {b : Block} {m : Mutation}
  {name : String} {n : Nat} {rest : List BlockId}

namespace Formed

private theorem calls_eq (h : Formed shape A w b) : calls w b =
    (shape.slots b.mutation).flatMap fun slot =>
      if Unused b slot.1 then [] else slotCalls w slot.2 (b.target? slot.1) := by
  have htarget (k : Socket) (hk : k ∈ b.sockets) :
      (if Unused b k.name then [] else slotCalls w k.kind k.target) =
        if Unused b k.name then [] else slotCalls w k.kind (b.target? k.name) := by
    rw [Block.target?, Block.socket?_of_mem h.names hk]
    rfl
  unfold calls
  rw [← h.sockets, List.flatMap_map, List.flatMap_congr htarget]

private theorem exists_socket (h : Formed shape A w b) {kind : SocketKind}
    (hs : (name, kind) ∈ shape.slots b.mutation) :
    ∃ k ∈ b.sockets, k.kind = kind ∧ b.target? name = k.target := by
  rw [← h.sockets] at hs
  obtain ⟨k, hk, he⟩ := List.mem_map.mp hs
  obtain ⟨rfl, rfl⟩ := Prod.mk.inj he
  refine ⟨k, hk, rfl, ?_⟩
  rw [Block.target?, Block.socket?_of_mem h.names hk]
  rfl

theorem value (h : Formed shape A w b) (name : String)
    (hs : (name, .value) ∈ shape.slots b.mutation) :
    ∀ c ∈ b.target? name, ∀ code, ¬ A.fragment c (.statement code) := by
  obtain ⟨k, hk, hkind, ht⟩ := h.exists_socket hs
  rw [ht]
  exact h.values k hk hkind

theorem statement (h : Formed shape A w b) (name : String)
    (hs : (name, .statement) ∈ shape.slots b.mutation) :
    ∀ t ∈ b.target? name, ∀ c ∈ w.chain t, ∀ code level, ¬ A.fragment c (.expression code level) := by
  obtain ⟨k, hk, hkind, ht⟩ := h.exists_socket hs
  rw [ht]
  exact h.statements k hk hkind

/-- A dropdown has one of its choices. -/
theorem choice (h : Formed shape A w b) {choices : List String}
    (hf : shape.fieldSpec? name = some (.dropdown name choices)) :
    ∃ c ∈ choices, b.field? name = some (.choice c) := by
  obtain ⟨v, hv, hallows⟩ := h.fills.exists_value hf
  simp only [FieldSpec.allows, FieldSpec.dropdown, Bool.and_eq_true] at hallows
  cases v with
  | choice c => exact ⟨c, by simpa [FieldValue.string?] using hallows.2, hv⟩
  | _ => simp [FieldValue.sameKind] at hallows

theorem text (h : Formed shape A w b) {f : FieldSpec} {default : String}
    (hf : shape.fieldSpec? name = some f) (hd : f.default = .text default) :
    ∃ t, b.field? name = some (.text t) := by
  obtain ⟨v, hv, hallows⟩ := h.fills.exists_value hf
  rw [FieldSpec.allows, hd, Bool.and_eq_true] at hallows
  cases v with
  | text t => exact ⟨t, hv⟩
  | _ => simp [FieldValue.sameKind] at hallows

theorem number (h : Formed shape A w b) {f : FieldSpec} {default : Binary64}
    (hf : shape.fieldSpec? name = some f) (hd : f.default = .number default) :
    ∃ n, b.field? name = some (.number n) := by
  obtain ⟨v, hv, hallows⟩ := h.fills.exists_value hf
  rw [FieldSpec.allows, hd, Bool.and_eq_true] at hallows
  cases v with
  | number n => exact ⟨n, hv⟩
  | _ => simp [FieldValue.sameKind] at hallows

/-- A mutation of a repeated group is a number of units. -/
theorem items (h : Formed shape A w b) {spec : RepeatSpec} (hm : shape.mutator = .repeats spec) :
    ∃ n, b.mutation = .items n := by
  have ha := h.accepts
  unfold Shape.accepts at ha
  rw [hm] at ha
  cases hb : b.mutation with
  | items n => exact ⟨n, rfl⟩
  | _ => simp [hb] at ha

private theorem calls_of_ne (h : Formed shape A w b) (hne : shape.type ≠ "lists_get_index") :
    calls w b = (shape.slots b.mutation).flatMap fun slot => slotCalls w slot.2 (b.target? slot.1) := by
  rw [h.calls_eq]
  refine List.flatMap_congr fun slot _ => ?_
  exact if_neg fun hu => hne (h.type.symm.trans hu.1)

end Formed

open Recipe

private theorem ensures_filled {socket : String} {bound : Precedence}
    {Q : Option String → List BlockId → Prop}
    (hkind : ∀ c ∈ b.target? socket, ∀ code, ¬ A.fragment c (.statement code))
    (hQ : ∀ v, Filled A b socket bound v → Q v rest) :
    (value? b socket bound).Ensures s A Q ((b.target? socket).toList ++ rest) := by
  refine ensures_value? hkind (fun ht => hQ _ ?_) fun c ht code level hf => hQ _ ?_
  · unfold Filled
    rw [ht]
  · unfold Filled
    rw [Option.mem_def.mp ht]
    exact ⟨code, level, hf, rfl⟩

private theorem ensures_operand {socket default : String} {bound : Precedence}
    {Q : String → List BlockId → Prop}
    (hkind : ∀ c ∈ b.target? socket, ∀ code, ¬ A.fragment c (.statement code))
    (hQ : ∀ x, Operand A b socket bound default x → Q x rest) :
    (valueOr b socket bound default).Ensures s A Q ((b.target? socket).toList ++ rest) :=
  ensures_bind (ensures_filled hkind fun v hv => hQ _ ⟨v, hv, rfl⟩)

section values

variable (hs : ∀ m, shape.slots m = []) (hc : ∀ m, (shape.connectorsOf m).output)
include hs hc

private theorem serves_number {default : Binary64} (htype : shape.type = "math_number")
    (hf : shape.fieldSpec? "NUM" = some (.number "NUM" default)) : Serves shape Rules.number := by
  intro s A b h
  obtain ⟨n, hn⟩ := h.number hf rfl
  rw [h.calls_eq, hs]
  refine ensures_bind (ensures_number hn ⟨rfl, (hc _).symm, ?_⟩)
  exact .number (h.type.trans htype) hn

private theorem serves_text {default : String} (htype : shape.type = "text")
    (hf : shape.fieldSpec? "TEXT" = some (.text "TEXT" default)) : Serves shape Rules.text := by
  intro s A b h
  obtain ⟨t, ht⟩ := h.text hf rfl
  rw [h.calls_eq, hs]
  refine ensures_bind (ensures_text ht ⟨rfl, (hc _).symm, ?_⟩)
  exact .text (h.type.trans htype) ht

private theorem serves_truthValue (htype : shape.type = "logic_boolean")
    (hf : shape.fieldSpec? "BOOL" = some (.dropdown "BOOL" ["TRUE", "FALSE"])) :
    Serves shape Rules.truthValue := by
  intro s A b h
  obtain ⟨c, hc', hchoice⟩ := h.choice hf
  rw [h.calls_eq, hs]
  refine ensures_bind (ensures_choice hchoice hc' ⟨rfl, (hc _).symm, ?_⟩)
  exact .truthValue (h.type.trans htype) hchoice

private theorem serves_nothing (htype : shape.type = "logic_null") : Serves shape Rules.nothing := by
  intro s A b h
  rw [h.calls_eq, hs]
  exact ⟨rfl, (hc _).symm, .nothing (h.type.trans htype)⟩

private theorem serves_variableGet {default : String} (htype : shape.type = "variables_get")
    (hf : shape.fieldSpec? "VAR" = some (.variableName "VAR" default)) :
    Serves shape Rules.variableGet := by
  intro s A b h
  obtain ⟨t, ht⟩ := h.text hf rfl
  rw [h.calls_eq, hs]
  refine ensures_bind (ensures_variableOf ht fun n hn => ⟨rfl, (hc _).symm, ?_⟩)
  exact .variableGet (h.type.trans htype) ht hn

end values

section operators

variable (hne : shape.type ≠ "lists_get_index") (hc : ∀ m, (shape.connectorsOf m).output)
include hne hc

private theorem serves_arithmetic (htype : shape.type = "math_arithmetic")
    (hs : ∀ m, shape.slots m = [("A", .value), ("B", .value)])
    (hf : shape.fieldSpec? "OP" = some (.dropdown "OP" Rules.arithmeticNames)) :
    Serves shape Rules.arithmetic := by
  intro s A b h
  obtain ⟨op, hop, hchoice⟩ := h.choice hf
  have hA := h.value "A" (by simp [hs])
  have hB := h.value "B" (by simp [hs])
  rw [h.calls_of_ne hne, hs]
  refine ensures_bind (ensures_choice hchoice hop ?_)
  refine ensures_bind (ensures_operand hA fun x hx => ensures_bind (ensures_operand hB fun y hy => ?_))
  refine ⟨rfl, (hc _).symm, ?_⟩
  exact .arithmetic (h.type.trans htype) hchoice hop rfl rfl hx hy

private theorem serves_single (htype : shape.type = "math_single")
    (hs : ∀ m, shape.slots m = [("NUM", .value)])
    (hf : shape.fieldSpec? "OP" = some (.dropdown "OP" Rules.singleNames)) :
    Serves shape Rules.single := by
  intro s A b h
  have htype := h.type.trans htype
  obtain ⟨op, hop, hchoice⟩ := h.choice hf
  have hnum := h.value "NUM" (by simp [hs])
  rw [h.calls_of_ne hne, hs]
  refine ensures_bind (ensures_choice hchoice hop ?_)
  split
  · refine ensures_bind (ensures_operand hnum fun x hx => ⟨rfl, (hc _).symm, ?_⟩)
    exact .negative htype hchoice hx
  · refine ensures_bind (ensures_operand hnum fun x hx => ⟨rfl, (hc _).symm, ?_⟩)
    exact .powerOfTen htype hchoice hx
  · refine ensures_bind (ensures_operand hnum fun x hx => ⟨rfl, (hc _).symm, ?_⟩)
    exact .absolute htype hchoice hx
  · rename_i hneg hten habs
    have hop : op ∈ ["ROOT", "LN", "LOG10", "EXP"] := by
      simp only [Rules.singleNames, List.mem_cons, List.not_mem_nil, or_false] at hop ⊢
      tauto
    refine ensures_bind (ensures_bind (ensures_operand hnum fun x hx => ?_))
    exact ⟨rfl, (hc _).symm, .function htype hchoice hop hx⟩

private theorem serves_compare (htype : shape.type = "logic_compare")
    (hs : ∀ m, shape.slots m = [("A", .value), ("B", .value)])
    (hf : shape.fieldSpec? "OP" = some (.dropdown "OP" Rules.compareNames)) :
    Serves shape Rules.compare := by
  intro s A b h
  obtain ⟨op, hop, hchoice⟩ := h.choice hf
  have hA := h.value "A" (by simp [hs])
  have hB := h.value "B" (by simp [hs])
  rw [h.calls_of_ne hne, hs]
  refine ensures_bind (ensures_choice hchoice hop ?_)
  refine ensures_bind (ensures_operand hA fun x hx => ensures_bind (ensures_operand hB fun y hy => ?_))
  refine ⟨rfl, (hc _).symm, ?_⟩
  exact .compare (h.type.trans htype) hchoice hop hx hy

private theorem serves_logic (htype : shape.type = "logic_operation")
    (hs : ∀ m, shape.slots m = [("A", .value), ("B", .value)])
    (hf : shape.fieldSpec? "OP" = some (.dropdown "OP" Rules.logicNames)) :
    Serves shape Rules.logic := by
  intro s A b h
  have htype := h.type.trans htype
  obtain ⟨op, hop, hchoice⟩ := h.choice hf
  have hA := h.value "A" (by simp [hs])
  have hB := h.value "B" (by simp [hs])
  rw [h.calls_of_ne hne, hs]
  refine ensures_bind (ensures_choice hchoice hop ?_)
  refine ensures_bind (ensures_filled hA fun x hx => ensures_bind (ensures_filled hB fun y hy => ?_))
  refine ⟨rfl, (hc _).symm, ?_⟩
  simp only [Rules.logicNames, List.mem_cons, List.not_mem_nil, or_false] at hop
  rcases hop with rfl | rfl
  · exact .conjunction htype hchoice hx hy
  · exact .disjunction htype hchoice ⟨x, hx, rfl⟩ ⟨y, hy, rfl⟩

private theorem serves_negate (htype : shape.type = "logic_negate")
    (hs : ∀ m, shape.slots m = [("BOOL", .value)]) :
    Serves shape Rules.negate := by
  intro s A b h
  have hbool := h.value "BOOL" (by simp [hs])
  rw [h.calls_of_ne hne, hs]
  refine ensures_bind (ensures_operand hbool fun x hx => ⟨rfl, (hc _).symm, ?_⟩)
  exact .negate (h.type.trans htype) hx

end operators

section collections

/-- Numbered sockets are asked for in the order of their numbers. -/
theorem ensures_numberedValues {default : String} {count start : Nat}
    {Q : List String → List BlockId → Prop}
    (hkind : ∀ i, start ≤ i → i < start + count → ∀ c ∈ b.target? (name ++ toString i), ∀ code,
      ¬ A.fragment c (.statement code))
    (hQ : ∀ texts, Operands A b name default start count texts → Q texts rest) :
    (Rules.numberedValues b name default count start).Ensures s A Q
      ((List.range' start count).flatMap (fun i => (b.target? (name ++ toString i)).toList) ++
        rest) := by
  induction count generalizing start Q with
  | zero => exact hQ [] .nil
  | succ count ih =>
    rw [List.range'_succ, List.flatMap_cons, List.append_assoc]
    refine ensures_bind (ensures_operand (hkind start (by omega) (by omega)) fun x hx => ?_)
    refine ensures_bind (ih (fun i hi hlt => hkind i (by omega) (by omega)) fun texts hv => ?_)
    exact hQ (x :: texts) (.cons hx hv)

private theorem ensures_entries {count start : Nat} {Q : List String → List BlockId → Prop}
    (hkey : ∀ i, start ≤ i → i < start + count → ∀ c ∈ b.target? ("KEY" ++ toString i), ∀ code,
      ¬ A.fragment c (.statement code))
    (hvalue : ∀ i, start ≤ i → i < start + count → ∀ c ∈ b.target? ("VALUE" ++ toString i), ∀ code,
      ¬ A.fragment c (.statement code))
    (hQ : ∀ texts, List.Forall₂ (Entry A b) (List.range' start count) texts → Q texts rest) :
    (Rules.entries b count start).Ensures s A Q
      ((List.range' start count).flatMap (fun i => (b.target? ("KEY" ++ toString i)).toList ++
        (b.target? ("VALUE" ++ toString i)).toList) ++ rest) := by
  induction count generalizing start Q with
  | zero => exact hQ [] .nil
  | succ count ih =>
    rw [List.range'_succ, List.flatMap_cons, List.append_assoc, List.append_assoc]
    refine ensures_bind (ensures_operand (hkey start (by omega) (by omega)) fun k hk => ?_)
    refine ensures_bind (ensures_operand (hvalue start (by omega) (by omega)) fun v hv => ?_)
    refine ensures_bind (ih (fun i hi hlt => hkey i (by omega) (by omega))
      (fun i hi hlt => hvalue i (by omega) (by omega)) fun texts htexts => ?_)
    exact hQ (_ :: texts) (.cons ⟨k, v, hk, hv, rfl⟩ htexts)

variable {spec : RepeatSpec} (hne : shape.type ≠ "lists_get_index")
  (hm : shape.mutator = .repeats spec) (hs : shape.sockets = [])
include hne hm hs

private theorem calls_items (h : Formed shape A w b) (hn : b.mutation = .items n) :
    calls w b = (List.range' 0 n).flatMap fun i =>
      spec.templates.flatMap fun t => slotCalls w t.kind (b.target? (t.name ++ toString i)) := by
  rw [h.calls_of_ne hne, hn, Shape.slots_repeats hm hs, List.flatMap_append, List.flatMap_assoc,
    ← List.range_eq_range']
  simp only [List.flatMap_map]
  refine List.append_left_eq_self.mpr ?_
  split
  · cases spec.emptyLabel <;> rfl
  · rfl

omit hne in
private theorem mem_slots_items (hn : b.mutation = .items n) {t : SocketSpec}
    (ht : t ∈ spec.templates) {i : Nat} (hi : i < n) :
    (t.name ++ toString i, t.kind) ∈ shape.slots b.mutation := by
  rw [hn, Shape.slots_repeats hm hs]
  exact List.mem_append_right _ (List.mem_flatMap.mpr
    ⟨i, List.mem_range.mpr hi, List.mem_map.mpr ⟨t, ht, rfl⟩⟩)

private theorem ensures_items {t : SocketSpec} (ht : spec.templates = [t]) (hk : t.kind = .value)
    (h : Formed shape A s.workspace b) {default : String} {Q : List String → List BlockId → Prop}
    (hQ : ∀ n texts, b.mutation = .items n → Operands A b t.name default 0 n texts → Q texts []) :
    (Rules.items b t.name default).Ensures s A Q (calls s.workspace b) := by
  obtain ⟨n, hn⟩ := h.items hm
  refine ensures_bind (ensures_itemCount hn ?_)
  have hcalls := calls_items hne hm hs h hn
  simp only [ht, List.flatMap_singleton, hk] at hcalls
  rw [hcalls, ← List.append_nil (List.flatMap _ _)]
  refine ensures_numberedValues (fun i _ hi => h.value _ ?_) fun texts => hQ n texts hn
  exact hk ▸ mem_slots_items hm hs hn (by simp [ht]) (by omega)

variable (hc : ∀ m, (shape.connectorsOf m).output)
include hc

private theorem serves_list (htype : shape.type = "lists_create_with")
    (ht : spec.templates = [.value "ITEM"]) : Serves shape Rules.list := by
  intro s A b h
  refine ensures_bind (ensures_items hne hm hs ht rfl h fun n texts hn hv => ?_)
  exact ⟨rfl, (hc _).symm, .list (h.type.trans htype) hn hv⟩

private theorem serves_joinedText (htype : shape.type = "text_join")
    (ht : spec.templates = [.value "ITEM"]) : Serves shape Rules.joinedText := by
  intro s A b h
  refine ensures_bind (ensures_items hne hm hs ht rfl h fun n texts hn hv => ?_)
  have htext := ExpressionText.joined (h.type.trans htype) hn hv
  rcases texts with _ | ⟨x, _ | ⟨y, _ | ⟨z, texts⟩⟩⟩ <;> exact ⟨rfl, (hc _).symm, htext⟩

private theorem serves_zeros (htype : shape.type = "ndarray_zeros")
    (ht : spec.templates = [.accepting ["Number"] (.value "DIM")]) :
    Serves shape Rules.zeros := by
  intro s A b h
  refine ensures_bind ?_
  refine ensures_bind (ensures_items hne hm hs ht rfl h fun n texts hn hv => ?_)
  have htext := ExpressionText.zeros (h.type.trans htype) hn hv
  rcases texts with _ | ⟨x, _ | ⟨y, texts⟩⟩ <;> exact ⟨rfl, (hc _).symm, htext⟩

private theorem serves_dictionary (htype : shape.type = "dicts_create_with")
    (ht : spec.templates = [.value "KEY", .labelled ":" (.value "VALUE")]) :
    Serves shape Rules.dictionary := by
  intro s A b h
  obtain ⟨n, hn⟩ := h.items hm
  refine ensures_bind (ensures_itemCount hn ?_)
  have hcalls := calls_items hne hm hs h hn
  simp only [ht, List.flatMap_cons, List.flatMap_nil, List.append_nil] at hcalls
  rw [hcalls, ← List.append_nil (List.flatMap _ _)]
  refine ensures_bind (ensures_entries (fun i _ hi => h.value _ ?_) (fun i _ hi => h.value _ ?_)
    fun texts hv => ⟨rfl, (hc _).symm, .dictionary (h.type.trans htype) hn hv⟩)
  · exact mem_slots_items hm hs hn (t := .value "KEY") (by simp [ht]) (by omega)
  · exact mem_slots_items hm hs hn (t := .labelled ":" (.value "VALUE")) (by simp [ht]) (by omega)

end collections

/-- What the rule of an element asks for before it looks at its mode. -/
def elementParts (b : Block) : Recipe (String × String × Option String) := do
  let mode ← variant b
  let place ← Recipe.choice b "WHERE" Rules.indexPlaces
  let list ← valueOr b "VALUE" .call "[]"
  let index ← Rules.elementIndex b place
  return (mode, list, index)

/-- The rule of an element asks for its parts first, and then writes them as its mode says. -/
theorem element_eq (b : Block) : Rules.element b = elementParts b >>= fun parts =>
    match parts.1 with
    | "GET" => pure (.expression (parts.2.1 ++ "[" ++ parts.2.2.getD "-1" ++ "]") .member)
    | "GET_REMOVE" => pure (.expression (parts.2.1 ++ ".pop(" ++ parts.2.2.getD "" ++ ")") .call)
    | "REMOVE" => pure (.statement (parts.2.1 ++ ".pop(" ++ parts.2.2.getD "" ++ ")\n"))
    | other => faulty (.invalidField b.id b.type "MODE" other) := by
  unfold Rules.element elementParts
  simp only [Recipe.bind_assoc]
  rfl

/-- The index is asked for unless the element is at an end of the list. -/
theorem ensures_elementParts {mode place : String} (htype : shape.type = "lists_get_index")
    (hs : ∀ m, shape.slots m = [("VALUE", .value), ("AT", .value)]) (h : Formed shape A s.workspace b)
    (hb : b.mutation = .variant mode) (hchoice : b.field? "WHERE" = some (.choice place))
    (hplace : place ∈ Rules.indexPlaces) :
    (elementParts b).Ensures s A (fun parts rest => rest = [] ∧ parts.1 = mode ∧
      Operand A b "VALUE" .call "[]" parts.2.1 ∧ ElementIndex A b place parts.2.2)
      (calls s.workspace b) := by
  have hvalue := h.value "VALUE" (by simp [hs])
  have hat := h.value "AT" (by simp [hs])
  have hindex : (Rules.elementIndex b place).Ensures s A
      (fun index rest => rest = [] ∧ ElementIndex A b place index)
      (if Unused b "AT" then [] else (b.target? "AT").toList) := by
    have hunused : Unused b "AT" ↔ place = "FIRST" ∨ place = "LAST" := by
      simp [Unused, hchoice, h.type.trans htype]
    rw [← List.append_nil (ite _ _ _)]
    simp only [Rules.indexPlaces, List.mem_cons, List.not_mem_nil, or_false] at hplace
    rcases hplace with rfl | rfl | rfl | rfl
    · rw [if_neg (by simp [hunused])]
      exact ensures_bind (ensures_operand hat fun x hx => ⟨rfl, .fromStart hx⟩)
    · rw [if_neg (by simp [hunused])]
      exact ensures_bind (ensures_operand hat fun x hx => ⟨rfl, .fromEnd hx⟩)
    · rw [if_pos (by simp [hunused])]
      exact ⟨rfl, .first⟩
    · rw [if_pos (by simp [hunused])]
      exact ⟨rfl, .last⟩
  have hcalls : calls s.workspace b = (b.target? "VALUE").toList ++
      if Unused b "AT" then [] else (b.target? "AT").toList := by
    rw [h.calls_eq, hs]
    simp [Unused, slotCalls]
  rw [hcalls]
  refine ensures_bind (ensures_variant hb (ensures_bind (ensures_choice hchoice hplace ?_)))
  refine ensures_bind (ensures_operand hvalue fun list hl => ensures_bind (hindex.mono ?_))
  rintro index rest ⟨hr, hi⟩
  exact ⟨hr, rfl, hl, hi⟩

/-- An element that is taken out and not used is a statement. -/
theorem serves_element {list : List VariantSpec} (hm : shape.mutator = .variants "MODE" list)
    (htype : shape.type = "lists_get_index")
    (hs : ∀ m, shape.slots m = [("VALUE", .value), ("AT", .value)])
    (hf : shape.fieldSpec? "WHERE" = some (.dropdown "WHERE" Rules.indexPlaces))
    (hlist : ∀ name ∈ Shape.variantNames list, name ∈ Rules.indexModes)
    (hc : ∀ name ∈ Rules.indexModes,
      (shape.connectorsOf (.variant name)).output = (name != "REMOVE")) :
    Serves shape Rules.element := by
  intro s A b h
  obtain ⟨mode, hmode, hb⟩ : ∃ mode ∈ Rules.indexModes, b.mutation = .variant mode := by
    have ha := h.accepts
    unfold Shape.accepts at ha
    rw [hm] at ha
    cases hb : b.mutation with
    | variant name => exact ⟨name, hlist name (by simpa [hb] using ha), rfl⟩
    | _ => simp [hb] at ha
  obtain ⟨place, hplace, hchoice⟩ := h.choice hf
  have hconn := hc mode hmode
  have hparts := ensures_elementParts htype hs h hb hchoice hplace
  have htype := h.type.trans htype
  rw [element_eq, hb]
  refine ensures_bind (hparts.mono ?_)
  rintro ⟨_, list, index⟩ rest ⟨hr, rfl, hl, hi⟩
  simp only [Rules.indexModes, List.mem_cons, List.not_mem_nil, or_false] at hmode
  rcases hmode with rfl | rfl | rfl
  · exact ⟨hr, hconn.symm, .element htype hb hchoice hl hi⟩
  · exact ⟨hr, hconn.symm, .taken htype hb hchoice hl hi⟩
  · exact ⟨hr, hconn.symm, .removed htype hb hchoice hl hi⟩

section statements

variable (hne : shape.type ≠ "lists_get_index") (hc : ∀ m, (shape.connectorsOf m).output = false)
include hne hc

private theorem serves_assign (htype : shape.type = "variables_set")
    (hs : ∀ m, shape.slots m = [("VALUE", .value)]) {default : String}
    (hf : shape.fieldSpec? "VAR" = some (.variableName "VAR" default)) :
    Serves shape Rules.assign := by
  intro s A b h
  obtain ⟨t, ht⟩ := h.text hf rfl
  have hvalue := h.value "VALUE" (by simp [hs])
  rw [h.calls_of_ne hne, hs]
  refine ensures_bind (ensures_variableOf ht fun name hname => ?_)
  refine ensures_bind (ensures_operand hvalue fun x hx => ⟨rfl, (hc _).symm, ?_⟩)
  exact .assign (h.type.trans htype) ht hname hx

private theorem serves_print (htype : shape.type = "text_print")
    (hs : ∀ m, shape.slots m = [("TEXT", .value)]) : Serves shape Rules.print := by
  intro s A b h
  have htext := h.value "TEXT" (by simp [hs])
  rw [h.calls_of_ne hne, hs]
  refine ensures_bind (ensures_operand htext fun x hx => ⟨rfl, (hc _).symm, ?_⟩)
  exact .print (h.type.trans htype) hx

private theorem serves_repeatLoop (htype : shape.type = "controls_repeat_ext")
    (hs : ∀ m, shape.slots m = [("TIMES", .value), ("DO", .statement)]) :
    Serves shape Rules.repeatLoop := by
  intro s A b h
  have htimes := h.value "TIMES" (by simp [hs])
  have hdo := h.statement "DO" (by simp [hs])
  rw [h.calls_of_ne hne, hs]
  refine ensures_bind (ensures_operand htimes fun x hx => ensures_bind fun counter hcounter => ?_)
  refine ensures_bind (ensures_body hdo fun body hbody => ⟨rfl, (hc _).symm, ?_⟩)
  exact .repeatLoop (h.type.trans htype) hx hcounter hbody

private theorem serves_conditionLoop (htype : shape.type = "controls_whileUntil")
    (hs : ∀ m, shape.slots m = [("BOOL", .value), ("DO", .statement)])
    (hf : shape.fieldSpec? "MODE" = some (.dropdown "MODE" ["WHILE", "UNTIL"])) :
    Serves shape Rules.conditionLoop := by
  intro s A b h
  have htype := h.type.trans htype
  obtain ⟨mode, hmode, hchoice⟩ := h.choice hf
  have hbool := h.value "BOOL" (by simp [hs])
  have hdo := h.statement "DO" (by simp [hs])
  rw [h.calls_of_ne hne, hs]
  refine ensures_bind (ensures_choice hchoice hmode ?_)
  simp only [List.mem_cons, List.not_mem_nil, or_false] at hmode
  rcases hmode with rfl | rfl
  · refine ensures_bind (ensures_operand hbool fun x hx => ?_)
    refine ensures_bind (ensures_body hdo fun body hbody => ⟨rfl, (hc _).symm, ?_⟩)
    exact .whileLoop htype hchoice hx hbody
  · refine ensures_bind (ensures_operand hbool fun x hx => ensures_bind ?_)
    refine ensures_bind (ensures_body hdo fun body hbody => ⟨rfl, (hc _).symm, ?_⟩)
    exact .untilLoop htype hchoice hx hbody

private theorem serves_eachLoop (htype : shape.type = "controls_for_each")
    (hs : ∀ m, shape.slots m = [("LIST", .value), ("DO", .statement)]) {default : String}
    (hf : shape.fieldSpec? "VAR" = some (.variableName "VAR" default)) :
    Serves shape Rules.eachLoop := by
  intro s A b h
  obtain ⟨t, ht⟩ := h.text hf rfl
  have hlist := h.value "LIST" (by simp [hs])
  have hdo := h.statement "DO" (by simp [hs])
  rw [h.calls_of_ne hne, hs]
  refine ensures_bind (ensures_variableOf ht fun name hname => ?_)
  refine ensures_bind (ensures_operand hlist fun x hx => ?_)
  refine ensures_bind (ensures_body hdo fun body hbody => ⟨rfl, (hc _).symm, ?_⟩)
  exact .eachLoop (h.type.trans htype) ht hname hx hbody

private theorem serves_returnValue (htype : shape.type = "controls_return")
    (hs : ∀ m, shape.slots m = [("VALUE", .value)]) : Serves shape Rules.returnValue := by
  intro s A b h
  have htype := h.type.trans htype
  have hvalue := h.value "VALUE" (by simp [hs])
  rw [h.calls_of_ne hne, hs]
  refine ensures_bind (ensures_filled hvalue fun x hx => ?_)
  cases x with
  | none => exact ⟨rfl, (hc _).symm, .noResult htype hx⟩
  | some x => exact ⟨rfl, (hc _).symm, .result htype hx⟩

private theorem serves_entryPoint (htype : shape.type = "program_main")
    (hs : ∀ m, shape.slots m = [("DO", .statement)]) {default : String}
    (hf : shape.fieldSpec? "NAME" = some (.text "NAME" default)) :
    Serves shape Rules.entryPoint := by
  intro s A b h
  obtain ⟨t, ht⟩ := h.text hf rfl
  have hdo := h.statement "DO" (by simp [hs])
  rw [h.calls_of_ne hne, hs]
  refine ensures_bind (ensures_text ht (ensures_bind fun name hname => ?_))
  refine ensures_bind (ensures_body hdo fun body hbody => ⟨rfl, (hc _).symm, ?_⟩)
  exact .entryPoint (h.type.trans htype) hname hbody

omit hne hc in
/-- The branches are asked for one after the other, each condition before its statements. -/
theorem ensures_conditions {count start : Nat} {Q : String → List BlockId → Prop}
    (hif : ∀ i, start ≤ i → i < start + count → ∀ c ∈ b.target? ("IF" ++ toString i), ∀ code,
      ¬ A.fragment c (.statement code))
    (hdo : ∀ i, start ≤ i → i < start + count → ∀ t ∈ b.target? ("DO" ++ toString i),
      ∀ c ∈ s.workspace.chain t, ∀ code level, ¬ A.fragment c (.expression code level))
    (hQ : ∀ code, BranchText s A b start count code → Q code rest) :
    (Rules.conditions b count start).Ensures s A Q
      ((List.range' start count).flatMap (fun i => (b.target? ("IF" ++ toString i)).toList ++
        (b.target? ("DO" ++ toString i)).toList.flatMap s.workspace.chain) ++ rest) := by
  induction count generalizing start Q with
  | zero => exact hQ "" .nil
  | succ count ih =>
    rw [List.range'_succ, List.flatMap_cons, List.append_assoc, List.append_assoc]
    refine ensures_bind (ensures_operand (hif start (by omega) (by omega)) fun x hx => ?_)
    refine ensures_bind (ensures_body (hdo start (by omega) (by omega)) fun body hbody => ?_)
    refine ensures_bind (ih (fun i hi hlt => hif i (by omega) (by omega))
      (fun i hi hlt => hdo i (by omega) (by omega)) fun more hmore => ?_)
    exact hQ _ (.cons hx hbody hmore)

omit hne hc in
private theorem slots_branches (hm : shape.mutator = .branches)
    (hs : shape.sockets.map (fun k => (k.name, k.kind)) = [("IF0", .value), ("DO0", .statement)])
    (n : Nat) (hasElse : Bool) : shape.slots (.branches n hasElse) =
      (List.range' 0 (n + 1)).flatMap (fun i =>
        [("IF" ++ toString i, .value), ("DO" ++ toString i, .statement)]) ++
        if hasElse then [("ELSE", .statement)] else [] := by
  have hfixed : (shape.sockets.map (·.instantiate false)).map (fun k => (k.name, k.kind)) =
      [("IF0", .value), ("DO0", .statement)] := by
    rw [← hs, List.map_map]
    rfl
  have hbranches : (List.range' 1 n).flatMap (fun i =>
      [("IF" ++ toString i, SocketKind.value), ("DO" ++ toString i, SocketKind.statement)]) =
      (List.range n).flatMap fun i => (Shape.elseIfSockets (i + 1)).map fun k => (k.name, k.kind) := by
    rw [List.range'_eq_map_range, List.flatMap_map]
    refine List.flatMap_congr fun i _ => ?_
    rw [Nat.add_comm 1 i]
    rfl
  unfold Shape.slots Shape.layout Shape.mutableSockets
  simp only [hm, List.map_append, hfixed, List.map_flatMap, List.range'_succ, List.flatMap_cons,
    Nat.zero_add, hbranches, List.append_assoc]
  cases hasElse <;> rfl

private theorem serves_branch (htype : shape.type = "controls_if") (hm : shape.mutator = .branches)
    (hs : shape.sockets.map (fun k => (k.name, k.kind)) = [("IF0", .value), ("DO0", .statement)]) :
    Serves shape Rules.branch := by
  intro s A b h
  obtain ⟨n, hasElse, hb⟩ : ∃ n hasElse, b.mutation = .branches n hasElse := by
    have ha := h.accepts
    unfold Shape.accepts at ha
    rw [hm] at ha
    cases hb : b.mutation with
    | branches n hasElse => exact ⟨n, hasElse, rfl⟩
    | _ => simp [hb] at ha
  have hslots := slots_branches hm hs n hasElse
  have hmem (i : Nat) (hi : i < 0 + (n + 1)) (slot : String × SocketKind)
      (hslot : slot ∈ [("IF" ++ toString i, SocketKind.value),
        ("DO" ++ toString i, SocketKind.statement)]) : slot ∈ shape.slots b.mutation := by
    rw [hb, hslots]
    exact List.mem_append_left _ (List.mem_flatMap.mpr
      ⟨i, List.mem_range'_1.mpr ⟨Nat.zero_le i, hi⟩, hslot⟩)
  rw [h.calls_of_ne hne, hb, hslots, List.flatMap_append, List.flatMap_assoc]
  simp only [List.flatMap_cons, List.flatMap_nil, List.append_nil]
  refine ensures_bind (ensures_branchCounts hb (ensures_bind ?_))
  refine ensures_conditions (fun i _ hi => h.value _ (hmem i hi _ (by simp)))
    (fun i _ hi => h.statement _ (hmem i hi _ (by simp))) fun code hcode => ?_
  have htype := h.type.trans htype
  cases hasElse with
  | false => exact ⟨rfl, (hc _).symm, .branch htype hb hcode⟩
  | true =>
    have helse := h.statement "ELSE" (by rw [hb, hslots]; simp)
    refine ensures_bind (ensures_body helse fun body hbody => ⟨rfl, (hc _).symm, ?_⟩)
    exact .branchElse htype hb hcode hbody

end statements

/-- Every rule of the standard vocabulary serves the blocks of its shape. -/
theorem serves_standard : ∀ entry ∈ standardTypes, Serves entry.1 entry.2 := by
  simp only [standardTypes, List.forall_mem_append]
  refine ⟨⟨⟨⟨⟨?_, ?_⟩, ?_⟩, ?_⟩, ?_⟩, ?_⟩
  · simp only [Rules.values, List.forall_mem_cons]
    exact ⟨serves_number (fun _ => rfl) (fun _ => rfl) rfl rfl,
      serves_text (fun _ => rfl) (fun _ => rfl) rfl rfl,
      serves_truthValue (fun _ => rfl) (fun _ => rfl) rfl rfl,
      serves_nothing (fun _ => rfl) (fun _ => rfl) rfl,
      serves_variableGet (fun _ => rfl) (fun _ => rfl) rfl rfl, List.forall_mem_nil _⟩
  · simp only [Rules.operators, List.forall_mem_cons]
    exact ⟨serves_arithmetic (by decide) (fun _ => rfl) rfl (fun _ => rfl) rfl,
      serves_single (by decide) (fun _ => rfl) rfl (fun _ => rfl) rfl,
      serves_compare (by decide) (fun _ => rfl) rfl (fun _ => rfl) rfl,
      serves_logic (by decide) (fun _ => rfl) rfl (fun _ => rfl) rfl,
      serves_negate (by decide) (fun _ => rfl) rfl (fun _ => rfl), List.forall_mem_nil _⟩
  · simp only [Rules.collections, List.forall_mem_cons]
    exact ⟨serves_list (by decide) rfl rfl (fun _ => rfl) rfl rfl,
      serves_dictionary (by decide) rfl rfl (fun _ => rfl) rfl rfl,
      serves_joinedText (by decide) rfl rfl (fun _ => rfl) rfl rfl,
      serves_element rfl rfl (fun _ => rfl) rfl (by decide) (by decide),
      serves_zeros (by decide) rfl rfl (fun _ => rfl) rfl rfl, List.forall_mem_nil _⟩
  · simp only [Rules.assignment, List.forall_mem_cons]
    exact ⟨serves_assign (by decide) (fun _ => rfl) rfl (fun _ => rfl) rfl, List.forall_mem_nil _⟩
  · simp only [Rules.control, List.forall_mem_cons]
    exact ⟨serves_print (by decide) (fun _ => rfl) rfl (fun _ => rfl),
      serves_repeatLoop (by decide) (fun _ => rfl) rfl (fun _ => rfl),
      serves_conditionLoop (by decide) (fun _ => rfl) rfl (fun _ => rfl) rfl,
      serves_eachLoop (by decide) (fun _ => rfl) rfl (fun _ => rfl) rfl,
      serves_branch (by decide) (fun _ => rfl) rfl rfl rfl,
      serves_returnValue (by decide) (fun _ => rfl) rfl (fun _ => rfl), List.forall_mem_nil _⟩
  · simp only [Rules.program, List.forall_mem_cons]
    exact ⟨serves_entryPoint (by decide) (fun _ => rfl) rfl (fun _ => rfl) rfl, List.forall_mem_nil _⟩

end Python

end BlockProgram
