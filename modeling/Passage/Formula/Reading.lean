import Passage.Descent
import Passage.Formula.Tree
import Passage.Memo

/-!
# Reading formulas

A disjunction joins conjunctions by `OR`, a conjunction joins terms by `AND`, and a term is a
constant, a flag or a disjunction in parentheses. One token tells how to go on, so a text is refused
at the first token that cannot follow those before it, together with what could stand there.
-/
namespace Passage

namespace Formula

open Descent

inductive Expectation where
  | term
  | operatorOrEnd
  | operatorOrClosing
deriving DecidableEq, Repr

def Expectation.words : Expectation → String
  | term => "'(' or bool_literal or identifier"
  | operatorOrEnd => "and_op or or_op or EOF"
  | operatorOrClosing => "and_op or or_op or ')'"

/-- An expectation, with the marks from the place of the refusal on. -/
structure Refusal where
  expected : Expectation
  rest : List Mark
deriving DecidableEq, Repr

inductive Level where
  | disjunction
  | conjunction
  | term
deriving DecidableEq, Repr

/-- How many levels a reader may descend without taking a mark. -/
def Level.height : Level → Nat
  | disjunction => 3
  | conjunction => 2
  | term => 1

def close : List Mark → Except Refusal (List Mark)
  | .closing :: rest => .ok rest
  | rest => .error ⟨.operatorOrClosing, rest⟩

/-- Reads what a node of a level is made of from the front of the marks, to a depth of at most the
first argument; without enough depth there is no outcome. -/
def read : Nat → Level → List Mark → Option (Except Refusal (List Tree × List Mark))
  | 0, _, _ => none
  | depth + 1, .disjunction, marks => ExceptT.run do
    let (first, rest) ← ExceptT.mk (read depth .conjunction marks)
    match rest with
    | .or :: later =>
      let (links, rest) ← ExceptT.mk (read depth .disjunction later)
      return (.node .conjunction first :: .token .or :: links, rest)
    | rest => return ([.node .conjunction first], rest)
  | depth + 1, .conjunction, marks => ExceptT.run do
    let (first, rest) ← ExceptT.mk (read depth .term marks)
    match rest with
    | .and :: later =>
      let (links, rest) ← ExceptT.mk (read depth .conjunction later)
      return (.node .term first :: .token .and :: links, rest)
    | rest => return ([.node .term first], rest)
  | depth + 1, .term, marks =>
    match marks with
    | .const b :: rest => some (.ok ([.token (.const b)], rest))
    | .name s :: rest => some (.ok ([.token (.name s)], rest))
    | .opening :: later => ExceptT.run do
      let (inner, rest) ← ExceptT.mk (read depth .disjunction later)
      let rest ← ExceptT.mk (some (close rest))
      return ([.node .group [.token .opening, .node .disjunction inner, .token .closing]], rest)
    | rest => some (.error ⟨.term, rest⟩)

theorem closes : Closes Refusal.rest close where
  ok marks rest h := by
    unfold close at h
    split at h
    · cases h; exact List.suffix_cons _ _
    · cases h
  error marks refusal h := by
    unfold close at h
    split at h
    · cases h
    · cases h; rfl

/-- Depth in proportion to the marks is enough, and no mark is put back. -/
theorem read_within (depth : Nat) (level : Level) (marks : List Mark)
    (h : level.height + 3 * marks.length ≤ depth) :
    Within Refusal.rest marks (read depth level marks) := by
  have hdisjunction : Level.disjunction.height = 3 := rfl
  have hconjunction : Level.conjunction.height = 2 := rfl
  have hterm : Level.term.height = 1 := rfl
  induction depth generalizing level marks with
  | zero => cases level <;> omega
  | succ depth ih =>
    cases level with
    | disjunction =>
      unfold read
      refine (ih .conjunction marks (by omega)).bind fun first rest hrest => ?_
      have hlen := hrest.length_le
      dsimp only
      split
      · rename_i later
        rw [List.length_cons] at hlen
        have hlater := (List.suffix_cons _ later).trans hrest
        exact ((ih .disjunction later (by omega)).mono hlater).bind
          fun links rest hrest => within_ok _ hrest
      · exact within_ok _ hrest
    | conjunction =>
      unfold read
      refine (ih .term marks (by omega)).bind fun first rest hrest => ?_
      have hlen := hrest.length_le
      dsimp only
      split
      · rename_i later
        rw [List.length_cons] at hlen
        have hlater := (List.suffix_cons _ later).trans hrest
        exact ((ih .conjunction later (by omega)).mono hlater).bind
          fun links rest hrest => within_ok _ hrest
      · exact within_ok _ hrest
    | term =>
      unfold read
      split
      · exact within_ok _ (List.suffix_cons _ _)
      · exact within_ok _ (List.suffix_cons _ _)
      · rename_i later
        rw [List.length_cons] at h
        exact ((ih .disjunction later (by omega)).mono (List.suffix_cons _ later)).group closes
          fun inner => [Tree.node .group [.token .opening, .node .disjunction inner,
            .token .closing]]
      · exact within_error (List.suffix_refl _)

/-- The depth that any reading of so many marks can do with. -/
def depthFor (marks : List Mark) : Nat := Level.disjunction.height + 3 * marks.length

theorem read_isSome (marks : List Mark) : (read (depthFor marks) .disjunction marks).isSome := by
  obtain ⟨result, h, _⟩ := read_within (depthFor marks) .disjunction marks (Nat.le_refl _)
  simp [h]

/-- The tree that the marks are. -/
def Tree.ofMarks (marks : List Mark) : Except Refusal Tree :=
  match (read (depthFor marks) .disjunction marks).get (read_isSome marks) with
  | .ok (children, []) => .ok (.node .whole [.node .disjunction children, .ending])
  | .ok (_, mark :: rest) => .error ⟨.operatorOrEnd, mark :: rest⟩
  | .error refusal => .error refusal

end Formula

/-- Why a text is no formula: what was expected, and the number of characters before the place. -/
structure FormulaError where
  text : String
  expected : Formula.Expectation
  offset : Nat
deriving DecidableEq, Repr

namespace FormulaError

/-- The one-based line and column of a place, given by the characters before it. -/
def lineColumn (before : List Char) : Nat × Nat :=
  (before.count '\n' + 1, (before.reverse.takeWhile (· ≠ '\n')).length + 1)

/-- A stretch of text on one line. -/
def flatten (stretch : List Char) : List Char :=
  (stretch.filter (· ≠ '\r')).map fun c => if c = '\n' then ' ' else c

/-- Ten characters from either side of a place, which is marked by a star. -/
def surroundings (text : List Char) (offset : Nat) : List Char :=
  flatten ((text.take offset).drop (offset - 10)) ++ '*' :: flatten ((text.drop offset).take 10)

def message (error : FormulaError) : String :=
  let (line, column) := lineColumn (error.text.toList.take error.offset)
  "Invalid flat rule " ++ Text.quoted error.text ++ ": Expected " ++ error.expected.words ++
    s!" at position ({line}, {column}) => '" ++
    String.ofList (surroundings error.text.toList error.offset) ++ "'."

end FormulaError

namespace Formula

/-- The offset of the token from which on so many tokens are left. -/
def offsetOf (text : String) (tokens : List Token) (left : Nat) : Nat :=
  match tokens.drop (tokens.length - left) with
  | token :: _ => token.offset
  | [] => text.length

def Tree.ofText (text : String) : Except FormulaError Tree :=
  let tokens := Token.scan text
  match Tree.ofMarks (tokens.map Token.mark) with
  | .ok tree => .ok tree
  | .error refusal =>
    .error ⟨text, refusal.expected, offsetOf text tokens refusal.rest.length⟩

/-- The formula that a text is. -/
def ofText (text : String) : Except FormulaError Formula := (Tree.ofText text).map Tree.formula

end Formula

abbrev Formulas := Memo Formula.Tree.ofText 1000

inductive FormulaFault where
  | unreadable (error : FormulaError)
  | flag (error : FlagError)
  /-- A node had no operand to take. -/
  | noOperand
deriving Repr

namespace FormulaFault

def ofMishap : Formula.Mishap → FormulaFault
  | .flag error => flag error
  | .noOperand => noOperand

def message : FormulaFault → String
  | unreadable error => error.message
  | flag error => error.message
  | noOperand => "list index out of range"

end FormulaFault

def checkFormula (flags : Table Value) (rule : String) : Except FormulaFault Bool := do
  let tree ← (Formula.Tree.ofText rule).mapError .unreadable
  (tree.check flags).mapError .ofMishap

end Passage
