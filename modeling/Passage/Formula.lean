import Passage.Table
import Passage.Value

/-!
# Formulas

A formula joins flags and constants by `AND` and `OR` and knows nothing else: no texts, no calls.
All flags are looked up, from left to right, whatever the truth values, so the fault that is
reported is that of the leftmost bad flag.
-/
namespace Passage

inductive Formula where
  | const (b : Bool)
  | flag (name : String)
  | and (lhs rhs : Formula)
  | or (lhs rhs : Formula)
deriving DecidableEq, Repr

inductive FlagError where
  | undefined (name : String)
  | notTruth (name : String) (value : Value)
deriving Repr

def FlagError.message : FlagError → String
  | undefined name => "Undefined variable: " ++ name
  | notTruth name value => "Flag " ++ name ++ " must be a boolean, got " ++ value.literal

def flagValue (flags : Table Value) (name : String) : Except FlagError Bool :=
  match flags.get? name with
  | some (.bool b) => .ok b
  | some value => .error (.notTruth name value)
  | none => .error (.undefined name)

namespace Formula

def eval (flags : Table Value) : Formula → Except FlagError Bool
  | const b => .ok b
  | flag name => flagValue flags name
  | and lhs rhs => do
    let l ← lhs.eval flags
    let r ← rhs.eval flags
    return l && r
  | or lhs rhs => do
    let l ← lhs.eval flags
    let r ← rhs.eval flags
    return l || r

def flags : Formula → List String
  | const _ => []
  | flag name => [name]
  | and lhs rhs => lhs.flags ++ rhs.flags
  | or lhs rhs => lhs.flags ++ rhs.flags

end Formula

end Passage
