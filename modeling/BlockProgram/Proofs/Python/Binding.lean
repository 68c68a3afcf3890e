import BlockProgram.Proofs.Python.Denotation
import BlockProgram.Proofs.Python.Syntax.Spelling
import BlockProgram.Python.Precedence

/-! Levels of binding, and what the parentheses that follow from them do to how a text is read. An expression
is read as it should be wherever its place asks for at most as tight a binding as it has, and in parentheses
everywhere. -/
namespace BlockProgram.Python

open Syntax

/-- The level of the grammar that the expressions of a level of binding have. -/
def Precedence.phrase : Precedence → Level
  | atom | collection | member | call => .primary
  | power => .power
  | sign => .factor
  | product => .term
  | sum => .sum
  | comparison => .comparison
  | negation => .inversion
  | conjunction => .conjunction
  | disjunction | conditional | whole => .disjunction

private theorem Precedence.phrase_index_le {level bound : Precedence} (h : level.rank ≤ bound.rank) :
    bound.phrase.index ≤ level.phrase.index := by
  revert h
  cases level <;> cases bound <;> decide

/-- A text with its level says the tree: operands of `or` and `and` in a row, or anything else that is
read as a phrase of the level. Of a form that binds as tightly as a call elements and members can be taken,
unless it is a number. -/
inductive Spelled : Expr → String → Precedence → Prop where
  | any {xs : List Expr} {code : String} (h : Row "or" .conjunction xs code)
      (hlen : 2 ≤ xs.length) : Spelled (.any xs) code .disjunction
  | all {xs : List Expr} {code : String} (h : Row "and" .inversion xs code)
      (hlen : 2 ≤ xs.length) : Spelled (.all xs) code .conjunction
  | other {e : Expr} {code : String} {level : Precedence}
      (hlevel : level.rank ≤ Precedence.negation.rank) (h : Phrase level.phrase e code)
      (hdisjuncts : e.disjuncts = [e]) (hconjuncts : e.conjuncts = [e])
      (hsubject : level.rank ≤ Precedence.call.rank → e.isNumber = false → Subject e code) :
      Spelled e code level

variable {e : Expr} {code : String} {level bound : Precedence}

theorem parenthesize_of_le (h : level.rank ≤ bound.rank) : parenthesize code level bound = code := by
  unfold parenthesize Precedence.isWeaker
  rw [if_neg (by simpa using h)]

private theorem parenthesize_of_lt (h : bound.rank < level.rank) :
    parenthesize code level bound = "(" ++ code ++ ")" := by
  unfold parenthesize Precedence.isWeaker
  rw [if_pos (by simpa using h)]

namespace Spelled

/-- An expression that binds less tightly than a call. -/
theorem of_phrase (h : Phrase level.phrase e code) (hcall : Precedence.call.rank < level.rank)
    (hlevel : level.rank ≤ Precedence.negation.rank) (hdisjuncts : e.disjuncts = [e])
    (hconjuncts : e.conjuncts = [e]) : Spelled e code level :=
  .other hlevel h hdisjuncts hconjuncts fun hle _ => absurd hcall (Nat.not_lt.mpr hle)

/-- An expression that binds as tightly as a call. -/
theorem of_subject (h : Subject e code) (hlevel : level.rank ≤ Precedence.call.rank)
    (hdisjuncts : e.disjuncts = [e]) (hconjuncts : e.conjuncts = [e]) : Spelled e code level := by
  refine .other (Nat.le_trans hlevel (by decide)) (h.phrase.loosen ?_) hdisjuncts hconjuncts
    fun _ _ => h
  cases level <;> decide

/-- What is spelled with a level is read as a phrase of it. -/
theorem phrase (h : Spelled e code level) : Phrase level.phrase e code := by
  cases h with
  | any h hlen => exact h.mono (fun _ hc => hc) fun _ hchain => hchain.any hlen
  | all h hlen => exact h.mono (fun _ hc => hc) fun _ hchain => hchain.all hlen
  | other _ h => exact h

/-- In its place, with parentheses if need be. -/
theorem placed (h : Spelled e code level) (bound : Precedence) :
    Phrase bound.phrase e (parenthesize code level bound) := by
  by_cases hle : level.rank ≤ bound.rank
  · rw [parenthesize_of_le hle]
    exact h.phrase.loosen (Precedence.phrase_index_le hle)
  · rw [parenthesize_of_lt (Nat.lt_of_not_le hle)]
    have hwhole : Phrase .disjunction e code := h.phrase.loosen (Nat.zero_le _)
    refine (spells_group hwhole).mono (fun _ hc => hc) fun _ hd => hd.loosenTo ?_
    cases bound <;> decide

/-- In a place where elements and members are taken. -/
theorem subject (h : Spelled e code level) (hnumber : e.isNumber = false) :
    Subject e (parenthesize code level .call) := by
  by_cases hle : level.rank ≤ Precedence.call.rank
  · rw [parenthesize_of_le hle]
    cases h with
    | any => exact absurd hle (by decide)
    | all => exact absurd hle (by decide)
    | other _ _ _ _ hsubject => exact hsubject hle hnumber
  · rw [parenthesize_of_lt (Nat.lt_of_not_le hle)]
    exact subject_of_atom (spells_group (h.phrase.loosen (Nat.zero_le _)))

/-- In a place between `or`, where other disjunctions have no parentheses. -/
theorem disjuncts (h : Spelled e code level) :
    Row "or" .conjunction e.disjuncts (parenthesize code level .disjunction) := by
  cases h with
  | any h _ => exact h
  | all h hlen =>
    exact h.mono (fun _ hc => hc) fun _ hchain => .single (hchain.all hlen)
  | other hlevel h hdisjuncts =>
    rw [hdisjuncts, parenthesize_of_le (Nat.le_trans hlevel (by decide))]
    have hplace : level.rank ≤ Precedence.conjunction.rank :=
      Nat.le_trans hlevel (by decide)
    exact (h.loosen (Precedence.phrase_index_le hplace)).row

/-- In a place between `and`, where other conjunctions have no parentheses. -/
theorem conjuncts (h : Spelled e code level) :
    Row "and" .inversion e.conjuncts (parenthesize code level .conjunction) := by
  cases h with
  | any h hlen =>
    have hwhole : Phrase .disjunction _ code := h.mono (fun _ hc => hc) fun _ hchain => hchain.any hlen
    exact (spells_group hwhole).mono (fun _ hc => hc) fun _ hd => .single (hd.loosenTo (by decide))
  | all h _ => exact h
  | other hlevel h _ hconjuncts =>
    rw [hconjuncts, parenthesize_of_le (Nat.le_trans hlevel (by decide))]
    exact (h.loosen (Precedence.phrase_index_le hlevel)).row

end Spelled

end BlockProgram.Python
