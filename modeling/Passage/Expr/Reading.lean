import Passage.Descent
import Passage.Expr
import Passage.Token

/-!
# Reading expressions

The grammar, loosest first: comma, `OR`, `AND` and `==` each join two operands and nest to the
right; a call puts an expression in parentheses behind a term and does not chain; a term is a name,
a truth value, a text, an expression in parentheses, or nothing. Nothing is no operand of an
operator. The reader works on symbols alone, so its result cannot depend on how they are laid out.
Its depth is bounded by the number of symbols (`read_within`).
-/
namespace Passage

namespace BinaryOp

def mark : BinaryOp → Symbol
  | sequence => .comma
  | or => .or
  | and => .and
  | equal => .equal

end BinaryOp

inductive Complaint where
  | leftOver (found : Symbol)
  | missingLeft (op : BinaryOp)
  | missingRight (op : BinaryOp)
  | unclosed
deriving DecidableEq, Repr

namespace Complaint

def message : Complaint → String
  | leftOver found => "Unexpected token " ++ Text.quoted found.spelling
  | missingLeft .sequence => "Expected expression before \x22,\x22"
  | missingRight .sequence => "Expected expression after \x22,\x22"
  | missingLeft op => "Expected left hand side of " ++ op.symbol
  | missingRight op => "Expected right hand side of " ++ op.symbol
  | unclosed => "Missing right parenthesis"

end Complaint

namespace Reading

open Descent

/-- A complaint, with the symbols from the place of the complaint on. -/
structure Refusal where
  complaint : Complaint
  rest : List Symbol
deriving DecidableEq, Repr

inductive Level where
  | binary (op : BinaryOp)
  | call
  | term
deriving DecidableEq, Repr

namespace Level

abbrev whole : Level := binary .sequence

def ofOperand : BinaryOp → Level
  | .sequence => binary .or
  | .or => binary .and
  | .and => binary .equal
  | .equal => call

/-- How many levels a reader may descend without taking a symbol. -/
def height : Level → Nat
  | binary .sequence => 6
  | binary .or => 5
  | binary .and => 4
  | binary .equal => 3
  | call => 2
  | term => 1

theorem height_ofOperand (op : BinaryOp) : (ofOperand op).height + 1 = (binary op).height := by
  cases op <;> rfl

theorem height_pos (level : Level) : 0 < level.height := by
  cases level with
  | binary op => cases op <;> decide
  | call => decide
  | term => decide

theorem height_le (level : Level) : level.height ≤ 6 := by
  cases level with
  | binary op => cases op <;> decide
  | call => decide
  | term => decide

end Level

def close : List Symbol → Except Refusal (List Symbol)
  | .closing :: rest => .ok rest
  | rest => .error ⟨.unclosed, rest⟩

/-- Reads an expression of a level from the front of the symbols, to a depth of at most the first
argument; without enough depth there is no outcome. -/
def read : Nat → Level → List Symbol → Option (Except Refusal (Expr × List Symbol))
  | 0, _, _ => none
  | depth + 1, .binary op, symbols => ExceptT.run do
    let (lhs, rest) ← ExceptT.mk (read depth (.ofOperand op) symbols)
    match rest with
    | [] => return (lhs, [])
    | symbol :: later =>
      if symbol ≠ op.mark then return (lhs, symbol :: later)
      else if lhs = .empty then throw ⟨.missingLeft op, symbol :: later⟩
      else
        let (rhs, rest) ← ExceptT.mk (read depth (.binary op) later)
        if rhs = .empty then throw ⟨.missingRight op, rest⟩
        else return (.binary op lhs rhs, rest)
  | depth + 1, .call, symbols => ExceptT.run do
    let (callee, rest) ← ExceptT.mk (read depth .term symbols)
    match rest with
    | .opening :: later =>
      let (args, rest) ← ExceptT.mk (read depth .whole later)
      let rest ← ExceptT.mk (some (close rest))
      return (.call callee args, rest)
    | rest => return (callee, rest)
  | depth + 1, .term, symbols =>
    match symbols with
    | .name s :: rest => some (.ok (.var s, rest))
    | .bool b :: rest => some (.ok (.bool b, rest))
    | .text s :: rest => some (.ok (.text s, rest))
    | .opening :: later => ExceptT.run do
      let (inner, rest) ← ExceptT.mk (read depth .whole later)
      let rest ← ExceptT.mk (some (close rest))
      return (inner, rest)
    | rest => some (.ok (.empty, rest))

/-- What was closed began with the closing parenthesis. -/
theorem eq_of_close {symbols rest : List Symbol} (h : close symbols = .ok rest) :
    symbols = .closing :: rest := by
  unfold close at h
  split at h
  · cases h; rfl
  · cases h

theorem closes : Closes Refusal.rest close where
  ok symbols rest h := eq_of_close h ▸ List.suffix_cons _ rest
  error symbols refusal h := by
    unfold close at h
    split at h
    · cases h
    · cases h; rfl

/-- Depth in proportion to the symbols is enough, and no symbol is put back. -/
theorem read_within (depth : Nat) (level : Level) (symbols : List Symbol)
    (h : level.height + 6 * symbols.length ≤ depth) :
    Within Refusal.rest symbols (read depth level symbols) := by
  induction depth generalizing level symbols with
  | zero =>
    have := Level.height_pos level
    omega
  | succ depth ih =>
    have hwhole : Level.whole.height = 6 := rfl
    have hterm : Level.term.height = 1 := rfl
    have hcall : Level.call.height = 2 := rfl
    cases level with
    | binary op =>
      have hop := Level.height_ofOperand op
      have htop := Level.height_le (.binary op)
      unfold read
      refine (ih (.ofOperand op) symbols (by omega)).bind fun lhs rest hrest => ?_
      have hlen := hrest.length_le
      cases rest with
      | nil => exact within_ok _ hrest
      | cons symbol later =>
        have hlater := (List.suffix_cons symbol later).trans hrest
        rw [List.length_cons] at hlen
        dsimp only
        split
        · exact within_ok _ hrest
        · split
          · exact within_error hrest
          · refine ((ih (.binary op) later (by omega)).mono hlater).bind fun rhs rest hrest => ?_
            dsimp only
            split
            · exact within_error hrest
            · exact within_ok _ hrest
    | call =>
      unfold read
      refine (ih .term symbols (by omega)).bind fun callee rest hrest => ?_
      have hlen := hrest.length_le
      dsimp only
      split
      · rename_i later
        rw [List.length_cons] at hlen
        exact ((ih .whole later (by omega)).mono ((List.suffix_cons _ later).trans hrest)).group
          closes (Expr.call callee)
      · exact within_ok _ hrest
    | term =>
      unfold read
      split
      · exact within_ok _ (List.suffix_cons _ _)
      · exact within_ok _ (List.suffix_cons _ _)
      · exact within_ok _ (List.suffix_cons _ _)
      · rename_i later
        rw [List.length_cons] at h
        exact ((ih .whole later (by omega)).mono (List.suffix_cons _ later)).group closes id
      · exact within_ok _ (List.suffix_refl _)

/-- The depth that any reading of so many symbols can do with. -/
def depthFor (symbols : List Symbol) : Nat := Level.whole.height + 6 * symbols.length

theorem read_isSome (symbols : List Symbol) :
    (read (depthFor symbols) .whole symbols).isSome := by
  obtain ⟨result, h, _⟩ := read_within (depthFor symbols) .whole symbols (Nat.le_refl _)
  simp [h]

/-- Reads the longest expression at the front of the symbols. -/
def readWhole (symbols : List Symbol) : Except Refusal (Expr × List Symbol) :=
  (read (depthFor symbols) .whole symbols).get (read_isSome symbols)

end Reading

/-- The expression that the symbols are. Symbols behind it are refused unless they are allowed. -/
def Expr.ofSymbols (allowTrailing : Bool) (symbols : List Symbol) :
    Except Reading.Refusal Expr := do
  let (e, rest) ← Reading.readWhole symbols
  match allowTrailing, rest with
  | false, symbol :: later => throw ⟨.leftOver symbol, symbol :: later⟩
  | _, _ => return e

inductive ReadError where
  | token (error : TokenError)
  | grammar (complaint : Complaint) (position : Nat) (text : String)
deriving DecidableEq, Repr

def ReadError.message : ReadError → String
  | token error => error.message
  | grammar complaint position text =>
    complaint.message ++ s!" at character [{position}]: " ++ text

/-- A text together with the licence to leave tokens unread at its end. -/
structure RuleText where
  text : String
  allowTrailing : Bool := false
deriving DecidableEq, Repr

namespace RuleText

/-- The position of the token from which on so many tokens are left. -/
def positionOf (text : String) (tokens : List Token) (left : Nat) : Nat :=
  match tokens.drop (tokens.length - left) with
  | token :: _ => token.position
  | [] => (Token.endOf text).position

def expr (rule : RuleText) : Except ReadError Expr :=
  match Token.scan rule.text with
  | .error e => .error (.token e)
  | .ok tokens =>
    match Expr.ofSymbols rule.allowTrailing (tokens.map Token.symbol) with
    | .ok e => .ok e
    | .error refusal =>
      .error (.grammar refusal.complaint (positionOf rule.text tokens
        refusal.rest.length) rule.text)

end RuleText

/-- Reads a text of which every token belongs to the expression. -/
def Expr.ofText (text : String) : Except ReadError Expr := RuleText.expr ⟨text, false⟩

end Passage
