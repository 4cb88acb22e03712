import Passage.Decimal.Shortest
import Passage.Text.Quoted

/-!
# Values from a provider

Flags and regions come from outside as loosely typed values. A message shows such a value by its
literal, and names its shape by a short word.
-/
namespace Passage

inductive Value where
  | null
  | bool (b : Bool)
  | int (n : Int)
  | real (x : Float)
  | text (s : String)
  | list (items : List Value)
  | record (fields : List (String × Value))
deriving Repr, Inhabited

namespace Value

mutual

def literal : Value → String
  | null => "None"
  | bool true => "True"
  | bool false => "False"
  | int n => toString n
  | real x => realLiteral x
  | text s => Text.quoted s
  | list items => Text.bracketed "[" "]" (literals items)
  | record fields => Text.bracketed "\x7b" "\x7d" (fieldLiterals fields)

def literals : List Value → List String
  | [] => []
  | item :: rest => item.literal :: literals rest

def fieldLiterals : List (String × Value) → List String
  | [] => []
  | (name, value) :: rest => (Text.quoted name ++ ": " ++ value.literal) :: fieldLiterals rest

end

def shape : Value → String
  | null => "NoneType"
  | bool _ => "bool"
  | int _ => "int"
  | real _ => "float"
  | text _ => "str"
  | list _ => "list"
  | record _ => "dict"

/-- Values that count as nothing. -/
def isFalsy : Value → Bool
  | null => true
  | bool b => !b
  | int n => n == 0
  | real x => x == 0
  | text s => s.isEmpty
  | list items => items.isEmpty
  | record fields => fields.isEmpty

end Value

end Passage
