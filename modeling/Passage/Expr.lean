/-!
# Expressions of the rule language

Rules are trees over truth values, texts, names, calls and binary operators. The values that
evaluation yields are trees as well, so a result can be written or evaluated again. A comma chain
nests to the right and carries the arguments of a call as one expression.
-/
namespace Passage

/-- The binary operators, loosest first. -/
inductive BinaryOp where
  | sequence
  | or
  | and
  | equal
deriving DecidableEq, Repr

namespace BinaryOp

def symbol : BinaryOp → String
  | sequence => ","
  | or => "OR"
  | and => "AND"
  | equal => "=="

end BinaryOp

/-- Functions that are not written in the rule language: three built-in ones, and those of the
host program, each known by its number. A lazy function receives its arguments unevaluated. -/
inductive Native where
  | evalText
  | debug
  | atPlace
  | host (number : Nat) (name : String) (isLazy : Bool)
deriving DecidableEq, Repr

namespace Native

def name : Native → String
  | evalText => "eval"
  | debug => "debug"
  | atPlace => "at"
  | host _ name _ => name

def isLazy : Native → Bool
  | evalText => false
  | debug => false
  | atPlace => true
  | host _ _ isLazy => isLazy

end Native

inductive Expr where
  | empty
  | bool (b : Bool)
  | text (s : String)
  | var (name : String)
  | function (params : List String) (body : Expr)
  | native (n : Native)
  | call (callee args : Expr)
  | binary (op : BinaryOp) (lhs rhs : Expr)
deriving DecidableEq, Repr, Inhabited

namespace Expr

def kind : Expr → String
  | empty => "empty"
  | bool _ => "bool"
  | text _ => "str"
  | var _ => "var"
  | function _ _ => "function"
  | native _ => "native"
  | call _ _ => "call"
  | binary _ _ _ => "binary"

/-- The written form. Operators other than the comma stand in parentheses. -/
def render : Expr → String
  | empty => ""
  | bool true => "TRUE"
  | bool false => "FALSE"
  | text s => "\x22" ++ s ++ "\x22"
  | var name => name
  | function params body =>
    "(" ++ ", ".intercalate params ++ ") \x7b " ++ body.render ++ " \x7d"
  | native _ => "built-in function"
  | call callee args => callee.render ++ "(" ++ args.render ++ ")"
  | binary .sequence lhs rhs => lhs.render ++ ", " ++ rhs.render
  | binary op lhs rhs => "(" ++ lhs.render ++ " " ++ op.symbol ++ " " ++ rhs.render ++ ")"

def members : Expr → List Expr
  | binary .sequence lhs rhs => lhs :: rhs.members
  | e => [e]

/-- The arguments that the expression between the parentheses of a call stands for. -/
def arguments : Expr → List Expr
  | empty => []
  | e => e.members

/-- Values are the expressions that evaluation leaves as they are. -/
def isValue : Expr → Bool
  | empty | bool _ | text _ | function _ _ | native _ => true
  | var _ | call _ _ | binary _ _ _ => false

@[simp] theorem arguments_empty : arguments empty = [] := rfl

@[simp] theorem arguments_sequence (lhs rhs : Expr) :
    arguments (binary .sequence lhs rhs) = lhs :: rhs.members := rfl

/-- Every comma adds one argument to those behind it. -/
@[simp] theorem members_sequence (lhs rhs : Expr) :
    members (binary .sequence lhs rhs) = lhs :: rhs.members := rfl

end Expr

end Passage
