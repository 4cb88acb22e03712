import Passage.Text.Unmarked

/-!
# Quoted text

How messages show a piece of text: between single quotes, or between double quotes when it holds a
single quote and no double one. A backslash and the quote in use are escaped, line feed, carriage
return and tab have escapes of their own, and any other character that leaves no mark on the page
is written by its code point.
-/
namespace Passage.Text

/-- The last `width` hexadecimal digits of a number. -/
def hex : (width : Nat) → Nat → List Char
  | 0, _ => []
  | width + 1, n => hex width (n / 16) ++ [Nat.digitChar (n % 16)]

/-- An escape by code point is as short as two, four or eight digits allow. -/
def codePoint (c : Char) : List Char :=
  if c.toNat < 0x100 then '\\' :: 'x' :: hex 2 c.toNat
  else if c.toNat < 0x10000 then '\\' :: 'u' :: hex 4 c.toNat
  else '\\' :: 'U' :: hex 8 c.toNat

def escape (quote c : Char) : List Char :=
  if c = quote ∨ c = '\\' then ['\\', c]
  else if c = '\n' then ['\\', 'n']
  else if c = '\r' then ['\\', 'r']
  else if c = '\t' then ['\\', 't']
  else if isUnmarked c then codePoint c
  else [c]

/-- Double quotes spare a single quote its escape, unless the text holds both. -/
def quoteFor (text : List Char) : Char :=
  if text.contains '\x27' ∧ ¬ text.contains '\x22' then '\x22' else '\x27'

def quoted (text : String) : String :=
  let quote := quoteFor text.toList
  String.ofList (quote :: text.toList.flatMap (escape quote) ++ [quote])

def bracketed (opening closing : String) (items : List String) : String :=
  opening ++ ", ".intercalate items ++ closing

def quotedList (items : List String) : String := bracketed "[" "]" (items.map quoted)

/-- A tuple of texts; a comma marks the tuple of one. -/
def quotedTuple : List String → String
  | [single] => "(" ++ quoted single ++ ",)"
  | items => bracketed "(" ")" (items.map quoted)

end Passage.Text
