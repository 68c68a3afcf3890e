import BlockProgram.Proofs.Python.Number
import BlockProgram.Proofs.Python.Rules

/-! The texts of the rules say the trees of their blocks, one type of block after the other, as long as the
texts of the blocks in the sockets do. -/
namespace BlockProgram.Python

open Syntax

variable {A : Answers} {identifier : String → String} {b : Block} {trees : String → Expr}
  {socket name default code op operator x y : String} {bound level left right : Precedence} {d e : Expr}
  {l : Level} {n : Nat} {texts : List String}

theorem word_of_choice (h : b.field? name = some (.choice x)) : word b name = x := by
  unfold word
  rw [h]
  rfl

theorem word_of_text (h : b.field? name = some (.text x)) : word b name = x := by
  unfold word
  rw [h]
  rfl

private theorem numeral_of_number {v : Binary64} (h : b.field? name = some (.number v)) :
    numeral b name = v := by
  unfold numeral
  rw [h]
  rfl

theorem used?_eq (hu : ¬ Unused b socket) : used? b socket = b.target? socket := if_neg hu

theorem not_unused {type : String} (htype : b.type = type) (hne : type ≠ "lists_get_index") :
    ¬ Unused b socket := fun hu => hne (htype.symm.trans hu.1)

theorem isSome_of_filled {v : Option String} (hu : ¬ Unused b socket)
    (hv : Filled A b socket bound v) : v.isSome = (used? b socket).isSome := by
  rw [used?_eq hu]
  unfold Filled at hv
  split at hv
  · rename_i ht
    rw [hv, ht]
    rfl
  · rename_i ht
    obtain ⟨code, level, -, rfl⟩ := hv
    rw [ht]
    rfl

/-- An operand is either a default or a block in its place. -/
theorem cases_operand (hu : ¬ Unused b socket) (hx : Operand A b socket bound default x)
    {P : Expr → String → Prop} (hdefault : P d default)
    (hfilled : ∀ c code level, used? b socket = some c → A.fragment c (.expression code level) →
      P (trees socket) (parenthesize code level bound)) : P (operand b trees socket d) x := by
  obtain ⟨v, hv, rfl⟩ := hx
  unfold Filled at hv
  unfold operand
  rw [← used?_eq hu] at hv
  cases ht : used? b socket with
  | none =>
    rw [ht] at hv
    obtain rfl : v = none := hv
    exact hdefault
  | some c =>
    rw [ht] at hv
    obtain ⟨code, level, hf, rfl⟩ := hv
    exact hfilled c code level ht hf

def variableTypes : List String := ["variables_get", "variables_set", "controls_for_each"]

/-- The answers that the rule of a block gets say the trees of the blocks in its sockets. -/
structure Answered (A : Answers) (identifier : String → String) (b : Block) (trees : String → Expr) :
    Prop where
  fragment : ∀ socket c, used? b socket = some c → ∀ code level,
    A.fragment c (.expression code level) → Spelled (trees socket) code level
  identifier : b.type ∈ variableTypes → ∀ user, b.field? "VAR" = some (.text user) →
    ∀ name, A.identifier user name → name = identifier user ∧ Proper name
  elements : b.type = "lists_get_index" → (used? b "VALUE").isSome → (trees "VALUE").isNumber = false

namespace Answered

private theorem number {v : Binary64} (htype : b.type = "math_number")
    (hf : b.field? "NUM" = some (.number v)) : Spelled (blockTree identifier b trees) (numberLiteral v)
      (if !v.isFinite then .call else if v.isBelowZero then .sign else .atom) := by
  have htree : blockTree identifier b trees = numberTree v := by
    simp only [blockTree, htype, numeral_of_number hf]
  rw [htree]
  exact spelled_number v

private theorem text (htype : b.type = "text") (hf : b.field? "TEXT" = some (.text x)) :
    Spelled (blockTree identifier b trees) (textLiteral x) .atom := by
  have htree : blockTree identifier b trees = .text x := by
    simp only [blockTree, htype, word_of_text hf]
  rw [htree]
  exact .of_subject (subject_text x) (by decide) rfl rfl

private theorem truthValue (htype : b.type = "logic_boolean")
    (hf : b.field? "BOOL" = some (.choice x)) :
    Spelled (blockTree identifier b trees) (if x = "TRUE" then "True" else "False") .atom := by
  have htree : blockTree identifier b trees = .truth (x = "TRUE") := by
    simp only [blockTree, htype, word_of_choice hf]
  rw [htree]
  have htruth := subject_truth (decide (x = "TRUE"))
  simp only [decide_eq_true_eq] at htruth
  exact .of_subject htruth (by decide) rfl rfl

private theorem nothing (htype : b.type = "logic_null") :
    Spelled (blockTree identifier b trees) "None" .atom := by
  have htree : blockTree identifier b trees = .nothing := by simp only [blockTree, htype]
  rw [htree]
  exact .of_subject subject_nothing (by decide) rfl rfl

variable (h : Answered A identifier b trees)
include h

private theorem cases_spelled (hu : ¬ Unused b socket) (hx : Operand A b socket bound default x)
    {P : Expr → String → Prop} (hdefault : P d default)
    (hfilled : ∀ code level, (used? b socket).isSome → Spelled (trees socket) code level →
      P (trees socket) (parenthesize code level bound)) : P (operand b trees socket d) x :=
  cases_operand hu hx hdefault fun c code level ht hf =>
    hfilled code level (by simp [ht]) (h.fragment socket c ht code level hf)

theorem phrase_operand (hu : ¬ Unused b socket) (hx : Operand A b socket bound default x)
    (hdefault : Phrase bound.phrase d default) :
    Phrase bound.phrase (operand b trees socket d) x :=
  h.cases_spelled hu hx hdefault fun _ _ _ hs => hs.placed bound

private theorem variableGet (htype : b.type = "variables_get")
    (hf : b.field? "VAR" = some (.text x)) (hname : A.identifier x name) :
    Spelled (blockTree identifier b trees) name .atom := by
  have htree : blockTree identifier b trees = .name (identifier x) := by
    simp only [blockTree, htype, word_of_text hf]
  obtain ⟨rfl, hproper⟩ := h.identifier (by simp [variableTypes, htype]) x hf name hname
  rw [htree]
  exact .of_subject (subject_name hproper) (by decide) rfl rfl

omit h in
private theorem phrase_zero : Phrase l (.integer 0) "0" :=
  (phrase_integer 0).loosen (by cases l <;> decide)

private theorem arithmetic (htype : b.type = "math_arithmetic")
    (hf : b.field? "OP" = some (.choice op)) (hop : op ∈ Rules.arithmeticNames)
    (hoperator : Rules.arithmeticOperator op = (operator, level))
    (hbounds : Rules.operandBounds level = (left, right))
    (hx : Operand A b "A" left "0" x) (hy : Operand A b "B" right "0" y) :
    Spelled (blockTree identifier b trees) (x ++ operator ++ y) level := by
  have hu (socket : String) : ¬ Unused b socket := not_unused htype (by decide)
  have hx := h.phrase_operand (hu "A") hx phrase_zero
  have hy := h.phrase_operand (hu "B") hy phrase_zero
  have htree : blockTree identifier b trees = arithmeticTree op
      (operand b trees "A" (.integer 0)) (operand b trees "B" (.integer 0)) := by
    simp only [blockTree, htype, word_of_choice hf]
  rw [htree]
  simp only [Rules.arithmeticNames, List.mem_cons, List.not_mem_nil, or_false] at hop
  rcases hop with rfl | rfl | rfl | rfl | rfl <;> cases hoperator <;> cases hbounds
  · exact .of_phrase (phrase_sum (m := "+") hx hy (by decide)) (by decide) (by decide) rfl rfl
  · exact .of_phrase (phrase_sum (m := "-") hx hy (by decide)) (by decide) (by decide) rfl rfl
  · exact .of_phrase (phrase_product (m := "*") hx hy (by decide)) (by decide) (by decide) rfl rfl
  · exact .of_phrase (phrase_product (m := "/") hx hy (by decide)) (by decide) (by decide) rfl rfl
  · exact .of_phrase (phrase_power hx hy) (by decide) (by decide) rfl rfl

section single

variable (htype : b.type = "math_single")
include htype

omit h in
private theorem blockTree_single (hf : b.field? "OP" = some (.choice op)) :
    blockTree identifier b trees = singleTree op (operand b trees "NUM" (.integer 0)) := by
  simp only [blockTree, htype, word_of_choice hf]

private theorem negative (hf : b.field? "OP" = some (.choice "NEG"))
    (hx : Operand A b "NUM" .sign "0" x) :
    Spelled (blockTree identifier b trees) ("-" ++ x) .sign := by
  have hx := h.phrase_operand (not_unused htype (by decide)) hx phrase_zero
  rw [blockTree_single htype hf]
  exact .of_phrase (phrase_negative hx) (by decide) (by decide) rfl rfl

private theorem powerOfTen (hf : b.field? "OP" = some (.choice "POW10"))
    (hx : Operand A b "NUM" .sign "0" x) :
    Spelled (blockTree identifier b trees) ("10 ** " ++ x) .power := by
  have hx := h.phrase_operand (not_unused htype (by decide)) hx phrase_zero
  have hcode : "10 ** " = toString 10 ++ " ** " := by decide
  rw [blockTree_single htype hf, hcode]
  have hten : Phrase .primary (.integer 10) (toString 10) := (phrase_integer 10).loosen (by decide)
  exact .of_phrase (phrase_power hten hx) (by decide) (by decide) rfl rfl

private theorem absolute (hf : b.field? "OP" = some (.choice "ABS"))
    (hx : Operand A b "NUM" .whole "0" x) :
    Spelled (blockTree identifier b trees) ("abs(" ++ x ++ ")") .call := by
  have hx := h.phrase_operand (not_unused htype (by decide)) hx phrase_zero
  have hcode : "abs(" = "abs" ++ "(" := by decide
  have habs : Proper "abs" := by decide
  rw [blockTree_single htype hf, hcode]
  exact .of_subject ((subject_name habs).callOne hx) (by decide) rfl rfl

omit h htype in
/-- A function of a module. -/
theorem spelled_function {mod fn : String} (hm : Proper mod) (hf : Proper fn)
    (hcode : code = mod ++ "." ++ fn) (hx : Phrase .disjunction e x) :
    Spelled (.call (.member (.name mod) fn) [e]) (code ++ "(" ++ x ++ ")") .call := by
  subst hcode
  exact .of_subject (((subject_name hm).member hf).callOne hx) (by decide) rfl rfl

private theorem function (hf : b.field? "OP" = some (.choice op))
    (hop : op ∈ ["ROOT", "LN", "LOG10", "EXP"]) (hx : Operand A b "NUM" .whole "0" x) :
    Spelled (blockTree identifier b trees) (Rules.mathFunction op ++ "(" ++ x ++ ")") .call := by
  have hx := h.phrase_operand (not_unused htype (by decide)) hx phrase_zero
  rw [blockTree_single htype hf]
  simp only [List.mem_cons, List.not_mem_nil, or_false] at hop
  rcases hop with rfl | rfl | rfl | rfl
  all_goals exact spelled_function (by decide) (by decide) (by decide) hx

end single

private theorem compare (htype : b.type = "logic_compare") (hf : b.field? "OP" = some (.choice op))
    (hop : op ∈ Rules.compareNames) (hx : Operand A b "A" .sum "None" x)
    (hy : Operand A b "B" .sum "None" y) : Spelled (blockTree identifier b trees)
      (x ++ " " ++ Rules.compareOperator op ++ " " ++ y) .comparison := by
  have hu (socket : String) : ¬ Unused b socket := not_unused htype (by decide)
  have hnone : Phrase .sum .nothing "None" := subject_nothing.phrase.loosen (by decide)
  have hx := h.phrase_operand (hu "A") hx hnone
  have hy := h.phrase_operand (hu "B") hy hnone
  have htree : blockTree identifier b trees =
      compareTree op (operand b trees "A" .nothing) (operand b trees "B" .nothing) := by
    simp only [blockTree, htype, word_of_choice hf]
  have hcode (m : String) : x ++ " " ++ m ++ " " ++ y = x ++ (" " ++ m ++ " ") ++ y := by
    simp only [String.append_assoc]
  rw [htree, hcode]
  simp only [Rules.compareNames, List.mem_cons, List.not_mem_nil, or_false] at hop
  rcases hop with rfl | rfl | rfl | rfl | rfl | rfl
  all_goals exact .of_phrase (phrase_compare hx hy (by decide)) (by decide) (by decide) rfl rfl

section logic

variable (htype : b.type = "logic_operation")
include htype

omit h htype in
private theorem phrase_truth (value : Bool) (hl : l.index ≤ Level.primary.index) :
    Phrase l (.truth value) (if value then "True" else "False") :=
  (subject_truth value).phrase.loosen hl

private theorem conjunction {x y : Option String} (hf : b.field? "OP" = some (.choice "AND"))
    (hx : Filled A b "A" .conjunction x) (hy : Filled A b "B" .conjunction y) :
    Spelled (blockTree identifier b trees)
      (x.getD (if x.isSome || y.isSome then "True" else "False") ++ " and " ++
        y.getD (if x.isSome || y.isSome then "True" else "False")) .conjunction := by
  have hu (socket : String) : ¬ Unused b socket := not_unused htype (by decide)
  let identity : Expr := .truth (x.isSome || y.isSome)
  have htree : blockTree identifier b trees =
      .all ((operand b trees "A" identity).conjuncts ++ (operand b trees "B" identity).conjuncts) := by
    simp only [blockTree, htype, word_of_choice hf, if_true, identity, isSome_of_filled (hu "A") hx,
      isSome_of_filled (hu "B") hy]
  have hidentity := phrase_truth (l := .inversion) (x.isSome || y.isSome) (by decide)
  let P (e : Expr) (code : String) : Prop := Row "and" .inversion e.conjuncts code
  have hx := h.cases_spelled (P := P) (hu "A") ⟨x, hx, rfl⟩ (d := identity) hidentity.row
    fun _ _ _ hs => hs.conjuncts
  have hy := h.cases_spelled (P := P) (hu "B") ⟨y, hy, rfl⟩ (d := identity) hidentity.row
    fun _ _ _ hs => hs.conjuncts
  rw [htree]
  refine .all (hx.append hy (by decide)) ?_
  rw [List.length_append]
  exact Nat.add_le_add hx.length_pos hy.length_pos

private theorem disjunction (hf : b.field? "OP" = some (.choice "OR"))
    (hx : Operand A b "A" .disjunction "False" x) (hy : Operand A b "B" .disjunction "False" y) :
    Spelled (blockTree identifier b trees) (x ++ " or " ++ y) .disjunction := by
  have hu (socket : String) : ¬ Unused b socket := not_unused htype (by decide)
  have htree : blockTree identifier b trees = .any ((operand b trees "A" (.truth false)).disjuncts ++
      (operand b trees "B" (.truth false)).disjuncts) := by
    simp only [blockTree, htype, word_of_choice hf, show ¬ "OR" = "AND" by decide, if_false]
  have hfalse := phrase_truth (l := .conjunction) false (by decide)
  let P (e : Expr) (code : String) : Prop := Row "or" .conjunction e.disjuncts code
  have hx := h.cases_spelled (P := P) (hu "A") hx (d := .truth false) hfalse.row
    fun _ _ _ hs => hs.disjuncts
  have hy := h.cases_spelled (P := P) (hu "B") hy (d := .truth false) hfalse.row
    fun _ _ _ hs => hs.disjuncts
  rw [htree]
  refine .any (hx.append hy (by decide)) ?_
  rw [List.length_append]
  exact Nat.add_le_add hx.length_pos hy.length_pos

end logic

private theorem negate (htype : b.type = "logic_negate") (hx : Operand A b "BOOL" .negation "True" x) :
    Spelled (blockTree identifier b trees) ("not " ++ x) .negation := by
  have htrue := phrase_truth (l := .inversion) true (by decide)
  have hx := h.phrase_operand (not_unused htype (by decide)) hx htrue
  have htree : blockTree identifier b trees = .not (operand b trees "BOOL" (.truth true)) := by
    simp only [blockTree, htype]
  rw [htree]
  exact .of_phrase (phrase_not hx) (by decide) (by decide) rfl rfl

private theorem phrases_operands (hne : b.type ≠ "lists_get_index") {start count : Nat}
    (hdefault : Phrase .disjunction d default) (hv : Operands A b name default start count texts) :
    List.Forall₂ (Phrase .disjunction)
      ((List.range' start count).map fun i => operand b trees (name ++ toString i) d) texts := by
  refine List.forall₂_map_left_iff.mpr (hv.imp fun i text hx => ?_)
  exact h.phrase_operand (not_unused rfl hne) hx hdefault

private theorem list (htype : b.type = "lists_create_with") (hm : b.mutation = .items n)
    (hv : Operands A b "ITEM" "None" 0 n texts) :
    Spelled (blockTree identifier b trees) ("[" ++ Text.join ", " texts ++ "]") .collection := by
  have hne : b.type ≠ "lists_get_index" := by simp [htype]
  have hitems := h.phrases_operands hne (subject_nothing.phrase.loosen (Nat.zero_le _)) hv
  have htree : blockTree identifier b trees =
      .list ((List.range' 0 n).map fun i => operand b trees ("ITEM" ++ toString i) .nothing) := by
    simp only [blockTree, htype, unitCount, hm]
  rw [htree]
  exact .of_subject (subject_list hitems) (by decide) rfl rfl

private theorem dictionary (htype : b.type = "dicts_create_with") (hm : b.mutation = .items n)
    (hv : List.Forall₂ (Entry A b) (List.range' 0 n) texts) : Spelled (blockTree identifier b trees)
      ("\x7b" ++ Text.join ", " texts ++ "\x7d") .collection := by
  have hu (socket : String) : ¬ Unused b socket := not_unused htype (by decide)
  have hnone : Phrase .disjunction .nothing "None" := subject_nothing.phrase.loosen (by decide)
  have htree : blockTree identifier b trees = .dictionary ((List.range' 0 n).map fun i =>
      (operand b trees ("KEY" ++ toString i) .nothing,
        operand b trees ("VALUE" ++ toString i) .nothing)) := by
    simp only [blockTree, htype, unitCount, hm, List.zip_map']
  rw [htree]
  refine .of_subject (subject_dictionary ?_) (by decide) rfl rfl
  refine List.forall₂_map_left_iff.mpr (hv.imp fun i text hentry => ?_)
  obtain ⟨key, value, hkey, hvalue, rfl⟩ := hentry
  exact ⟨key, value, rfl, h.phrase_operand (hu _) hkey hnone, h.phrase_operand (hu _) hvalue hnone⟩

omit h in
/-- Parts that have been made texts: none, one, a sum of two, or more that are joined. -/
theorem spelled_joined {parts : List Expr}
    (hparts : List.Forall₂ (Phrase .disjunction) parts texts) {f : Fragment}
    (hf : (match texts.map fun p => "str(" ++ p ++ ")" with
      | [] => .expression "''" .atom
      | [only] => .expression only .call
      | [x, y] => .expression (x ++ " + " ++ y) .sum
      | parts => .expression ("''.join([" ++ Text.join ", " parts ++ "])") .call) = f)
    (he : f = .expression code level) : Spelled (joinedTree parts) code level := by
  have hmade : List.Forall₂ Subject (parts.map fun part => .call (.name "str") [part])
      (texts.map fun p => "str(" ++ p ++ ")") := by
    have hstr : Proper "str" := by decide
    have hcode : "str(" = "str" ++ "(" := by decide
    rw [List.forall₂_map_left_iff, List.forall₂_map_right_iff, hcode]
    exact hparts.imp fun part p hp => (subject_name hstr).callOne hp
  subst hf
  rcases hparts with _ | ⟨hx, _ | ⟨hy, _ | ⟨hz, hmore⟩⟩⟩ <;> cases he
  · exact .of_subject (subject_text "") (by decide) rfl rfl
  · obtain _ | ⟨hx, _⟩ := hmade
    exact .of_subject hx (by decide) rfl rfl
  · obtain _ | ⟨hx, _ | ⟨hy, _⟩⟩ := hmade
    have hx := hx.phrase.loosen (l := .sum) (by decide)
    have hy := hy.phrase.loosen (l := .term) (by decide)
    exact .of_phrase (phrase_sum (m := "+") hx hy (by decide)) (by decide) (by decide) rfl rfl
  · have hlist := subject_list (hmade.imp fun _ _ hp => hp.phrase.loosen (Nat.zero_le _))
    have hjoin : Proper "join" := by decide
    have hcode (inner : String) : "''.join([" ++ inner ++ "])" =
        "''" ++ "." ++ "join" ++ "(" ++ ("[" ++ inner ++ "]") ++ ")" := by
      have hstart : "''.join([" = "''" ++ "." ++ "join" ++ "(" ++ "[" := by decide
      have hend : "])" = "]" ++ ")" := by decide
      rw [hstart, hend]
      simp only [String.append_assoc]
    rw [hcode]
    have hempty : Subject (.text "") "''" := subject_text ""
    exact .of_subject ((hempty.member hjoin).callOne (hlist.phrase.loosen (by decide))) (by decide) rfl rfl

private theorem joined (htype : b.type = "text_join") (hm : b.mutation = .items n)
    (hv : Operands A b "ITEM" "''" 0 n texts) {f : Fragment}
    (hf : (match texts.map fun p => "str(" ++ p ++ ")" with
      | [] => .expression "''" .atom
      | [only] => .expression only .call
      | [x, y] => .expression (x ++ " + " ++ y) .sum
      | parts => .expression ("''.join([" ++ Text.join ", " parts ++ "])") .call) = f)
    (he : f = .expression code level) : Spelled (blockTree identifier b trees) code level := by
  have hne : b.type ≠ "lists_get_index" := by simp [htype]
  have hempty : Phrase .disjunction (.text "") "''" := (subject_text "").phrase.loosen (by decide)
  have hitems := h.phrases_operands hne hempty hv
  have htree : blockTree identifier b trees = joinedTree
      ((List.range' 0 n).map fun i => operand b trees ("ITEM" ++ toString i) (.text "")) := by
    simp only [blockTree, htype, unitCount, hm]
  rw [htree]
  exact spelled_joined hitems hf he

private theorem zeros (htype : b.type = "ndarray_zeros") (hm : b.mutation = .items n)
    (hv : Operands A b "DIM" "1" 0 n texts) : Spelled (blockTree identifier b trees)
      ("np.zeros(" ++ (match texts with
        | [] => "()"
        | [only] => only
        | dims => "(" ++ Text.join ", " dims ++ ")") ++ ")") .call := by
  have hne : b.type ≠ "lists_get_index" := by simp [htype]
  have hone : Phrase .disjunction (.integer 1) "1" := (phrase_integer 1).loosen (by decide)
  have hdims := h.phrases_operands hne hone hv
  have htree : blockTree identifier b trees = zerosTree
      ((List.range' 0 n).map fun i => operand b trees ("DIM" ++ toString i) (.integer 1)) := by
    simp only [blockTree, htype, unitCount, hm]
  have hcode : "np.zeros(" = "np.zeros" ++ "(" := by decide
  rw [htree, hcode]
  generalize (List.range' 0 n).map _ = dims at hdims
  refine spelled_function (by decide) (by decide) (by decide) ?_
  rcases hdims with _ | ⟨hx, _ | ⟨hy, hmore⟩⟩
  · exact (subject_tuple .nil (by decide)).phrase.loosen (by decide)
  · exact hx
  · exact (subject_tuple (.cons hx (.cons hy hmore)) (by simp)).phrase.loosen (Nat.zero_le _)

omit h in
/-- The index of an element is asked for unless it is at an end. -/
theorem not_unused_index {place : String} (hf : b.field? "WHERE" = some (.choice place))
    (hne : place ≠ "FIRST") (hne' : place ≠ "LAST") : ¬ Unused b "AT" := by
  rintro ⟨-, -, hplace⟩
  rw [hf] at hplace
  simp [hne, hne'] at hplace

theorem rel_index {place : String} {index : Option String}
    (hf : b.field? "WHERE" = some (.choice place)) (hi : ElementIndex A b place index) :
    Option.Rel (Phrase .disjunction) (indexTree? place (operand b trees "AT")) index := by
  cases hi with
  | first => exact .some phrase_zero
  | last => exact .none
  | fromStart hx =>
    exact .some (h.phrase_operand (not_unused_index hf (by decide) (by decide)) hx phrase_zero)
  | fromEnd hx =>
    have hone : Phrase .factor (.integer 1) "1" := (phrase_integer 1).loosen (by decide)
    have hx := h.phrase_operand (not_unused_index hf (by decide) (by decide)) hx hone
    exact .some ((phrase_negative hx).loosen (by decide))

section element

variable {place list : String} {index : Option String} (htype : b.type = "lists_get_index")
  (hf : b.field? "WHERE" = some (.choice place)) (hl : Operand A b "VALUE" .call "[]" list)
  (hi : ElementIndex A b place index)
include htype hl

theorem subject_value : Subject (operand b trees "VALUE" (.list [])) list := by
  have hu : ¬ Unused b "VALUE" := fun hu => absurd hu.2.1 (by decide)
  have hdefault : Subject (.list []) "[]" := subject_list .nil
  exact h.cases_spelled (P := Subject) hu hl hdefault
    fun code level hsome hs => hs.subject (h.elements htype hsome)

include hf hi

private theorem element (hm : b.mutation = .variant "GET") : Spelled (blockTree identifier b trees)
    (list ++ "[" ++ index.getD "-1" ++ "]") .member := by
  have htree : blockTree identifier b trees = .subscript (operand b trees "VALUE" (.list []))
      ((indexTree? place (operand b trees "AT")).getD (.negative (.integer 1))) := by
    simp only [blockTree, htype, word_of_choice hf, hm, Mutation.variant.injEq,
      show ¬ "GET" = "GET_REMOVE" by decide, if_false]
  have hindex := h.rel_index hf hi
  have hlast : Phrase .disjunction (.negative (.integer 1)) "-1" :=
    (phrase_negative ((phrase_integer 1).loosen (by decide))).loosen (by decide)
  rw [htree]
  generalize indexTree? place _ = index? at hindex
  refine .of_subject ((h.subject_value htype hl).subscript ?_) (by decide) rfl rfl
  cases hindex with
  | some hphrase => exact hphrase
  | none => exact hlast

private theorem taken (hm : b.mutation = .variant "GET_REMOVE") :
    Spelled (blockTree identifier b trees) (list ++ ".pop(" ++ index.getD "" ++ ")") .call := by
  have htree : blockTree identifier b trees =
      .call (.member (operand b trees "VALUE" (.list [])) "pop")
        (indexTree? place (operand b trees "AT")).toList := by
    simp only [blockTree, htype, word_of_choice hf, hm, if_true]
  have hindex := h.rel_index hf hi
  have hpop : Proper "pop" := by decide
  have hcode : list ++ ".pop(" = list ++ "." ++ "pop" ++ "(" := by
    have hname : ".pop(" = "." ++ "pop" ++ "(" := by decide
    rw [hname]
    simp only [String.append_assoc]
  have hfunction := (h.subject_value htype hl).member hpop
  rw [htree, hcode]
  generalize indexTree? place _ = index? at hindex
  cases hindex with
  | some hphrase => exact .of_subject (hfunction.callOne hphrase) (by decide) rfl rfl
  | none => exact .of_subject (hfunction.call .nil) (by decide) rfl rfl

end element

/-- Whatever the type of the block, the text of its rule says its tree. -/
theorem spelled {f : Fragment} (ht : ExpressionText A b f) (he : f = .expression code level) :
    Spelled (blockTree identifier b trees) code level := by
  cases ht with
  | number htype hf => cases he; exact number htype hf
  | text htype hf => cases he; exact text htype hf
  | truthValue htype hf => cases he; exact truthValue htype hf
  | nothing htype => cases he; exact nothing htype
  | variableGet htype hf hname => cases he; exact h.variableGet htype hf hname
  | arithmetic htype hf hop hoperator hbounds hx hy =>
    cases he; exact h.arithmetic htype hf hop hoperator hbounds hx hy
  | negative htype hf hx => cases he; exact h.negative htype hf hx
  | powerOfTen htype hf hx => cases he; exact h.powerOfTen htype hf hx
  | absolute htype hf hx => cases he; exact h.absolute htype hf hx
  | function htype hf hop hx => cases he; exact h.function htype hf hop hx
  | compare htype hf hop hx hy => cases he; exact h.compare htype hf hop hx hy
  | conjunction htype hf hx hy => cases he; exact h.conjunction htype hf hx hy
  | disjunction htype hf hx hy => cases he; exact h.disjunction htype hf hx hy
  | negate htype hx => cases he; exact h.negate htype hx
  | list htype hm hv => cases he; exact h.list htype hm hv
  | dictionary htype hm hv => cases he; exact h.dictionary htype hm hv
  | joined htype hm hv => exact h.joined htype hm hv rfl he
  | element htype hm hf hl hi => cases he; exact h.element htype hf hl hi hm
  | taken htype hm hf hl hi => cases he; exact h.taken htype hf hl hi hm
  | zeros htype hm hv => cases he; exact h.zeros htype hm hv

end Answered

/-- An integer is written with digits only. -/
theorem digits_of_text {f : Fragment} (ht : ExpressionText A b f) (he : f = .expression code level)
    (hn : blockTree identifier b trees = .integer n) : Digits code := by
  have htype : b.type = "math_number" := by
    by_contra hne
    have hnumber : (blockTree identifier b trees).isNumber = false := isNumber_blockTree hne
    rw [hn] at hnumber
    cases hnumber
  cases ht with
  | number _ hf =>
    cases he
    simp only [blockTree, htype, numeral_of_number hf] at hn
    exact digits_of_integer hn
  | _ => simp_all

end BlockProgram.Python
