import Passage.Formula
import Passage.Formula.Token

/-!
# Trees of formulas

What is read as a formula is a tree with a node for every rule of the grammar. A node has all that
its rule is made of as its children: nodes, and tokens, operators and parentheses among them, any
number of links in one chain. A tree is reduced from the leaves up and from left to right. Names and
literals yield truth values and other tokens their characters, and a node reduces the truth values
that its children yield. A repetition may stand between a node and its links as a bunch without a
name, which hands on what it is given; bunches may stand in bunches.

A tree stands for the formula that nests its chains to the right (`Tree.formula`).
-/
namespace Passage.Formula

/-- The rules that have nodes. -/
inductive Rule where
  | group
  | term
  | conjunction
  | disjunction
  | whole
deriving DecidableEq, Repr

inductive Tree where
  | token (mark : Mark)
  /-- The end of the text. -/
  | ending
  | node (rule : Rule) (children : List Tree)
  /-- A sequence or a repetition that has no name. -/
  | bunch (children : List Tree)

/-- What the reduction of a tree yields. -/
inductive Yield where
  | truth (b : Bool)
  | characters (text : String)
  | several (yields : List Yield)

namespace Yield

mutual

/-- The truth values in what is yielded, at any depth; characters do not count. -/
def truths : Yield → List Bool
  | truth b => [b]
  | characters _ => []
  | several yields => truthsIn yields

def truthsIn : List Yield → List Bool
  | [] => []
  | first :: rest => first.truths ++ truthsIn rest

end

/-- What a bunch yields: what its children do, or its characters if they yield nothing. -/
def ofBunch : List Yield → Yield
  | [] => characters ""
  | first :: rest => several (first :: rest)

end Yield

/-- What can go wrong in the reduction of a tree. -/
inductive Mishap where
  | flag (error : FlagError)
  /-- There is no operand to take. -/
  | noOperand
deriving Repr

def Mark.spelling : Mark → String
  | opening => "("
  | closing => ")"
  | and => "AND"
  | or => "OR"
  | const true => "TRUE"
  | const false => "FALSE"
  | name s => s
  | stray c => String.singleton c

def Mark.reduce (flags : Table Value) : Mark → Except Mishap Yield
  | const b => .ok (.truth b)
  | name s => ((flagValue flags s).map Yield.truth).mapError .flag
  | mark => .ok (.characters mark.spelling)

/-- The first of the operands. -/
def operand : List Bool → Except Mishap Bool
  | [] => .error .noOperand
  | b :: _ => .ok b

def Rule.reduce (rule : Rule) (truths : List Bool) : Except Mishap Bool :=
  match rule with
  | group | term | whole => operand truths
  | conjunction => .ok (truths.all id)
  | disjunction => .ok (truths.any id)

/-- The formulas of a chain nest to the right. -/
def chained (join : Formula → Formula → Formula) (none : Formula) : List Formula → Formula
  | [] => none
  | [f] => f
  | f :: rest => join f (chained join none rest)

def Rule.join (rule : Rule) (formulas : List Formula) : Formula :=
  match rule with
  | group | term | whole => formulas.headD (.const false)
  | conjunction => chained .and (.const true) formulas
  | disjunction => chained .or (.const false) formulas

namespace Tree

mutual

def reduce (flags : Table Value) : Tree → Except Mishap Yield
  | token mark => mark.reduce flags
  | ending => .ok (.characters "")
  | node rule children => do
    let yields ← reduceAll flags children
    let b ← rule.reduce (Yield.truthsIn yields)
    return .truth b
  | bunch children => do
    let yields ← reduceAll flags children
    return .ofBunch yields

def reduceAll (flags : Table Value) : List Tree → Except Mishap (List Yield)
  | [] => .ok []
  | tree :: rest => do
    let first ← tree.reduce flags
    let later ← reduceAll flags rest
    return first :: later

end

/-- The truth value of a tree. -/
def check (flags : Table Value) (tree : Tree) : Except Mishap Bool := do
  let result ← tree.reduce flags
  operand result.truths

mutual

/-- The formulas of the operands in a tree. -/
def formulas : Tree → List Formula
  | token (.const b) => [.const b]
  | token (.name s) => [.flag s]
  | token _ | ending => []
  | node rule children => [rule.join (formulasIn children)]
  | bunch children => formulasIn children

def formulasIn : List Tree → List Formula
  | [] => []
  | tree :: rest => tree.formulas ++ formulasIn rest

end

def formula (tree : Tree) : Formula := tree.formulas.headD (.const false)

end Tree

end Passage.Formula
