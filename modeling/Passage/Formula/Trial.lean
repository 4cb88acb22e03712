import Passage.Formula.Pattern

/-!
# Trials of patterns

A pattern can be tried at a place of a text, character by character. A terminal skips the blanks
and takes what it stands for: a sign, one of its words that no word character follows, or a run of
name characters that begins with none of these words. An alternative is tried after the one before
it has failed, and a repetition goes on as long as it can and steps back where it fails half way.
Every failure of a terminal is kept with its offset.
-/
namespace Passage.Formula

/-- No word character follows. -/
def Token.standsAlone : List Char → Bool
  | [] => true
  | c :: _ => !Text.isWordChar c

/-- The length of the first of some words that the text begins with, if no word character follows
it. -/
def keyword? (words : List String) (text : List Char) : Option Nat :=
  (words.find? fun word =>
    word.toList.isPrefixOf text && Token.standsAlone (text.drop word.length)).map String.length

/-- The words that a terminal stands for, if it stands for words. -/
def Terminal.words : Terminal → List String
  | and => ["AND"]
  | or => ["OR"]
  | literal => ["TRUE", "FALSE", "true", "false"]
  | _ => []

/-- The words that are no identifiers. -/
def keywords : List String := Terminal.and.words ++ Terminal.or.words ++ Terminal.literal.words

/-- How many characters a terminal takes, if the text begins with it. -/
def Terminal.length? : Terminal → List Char → Option Nat
  | opening, text => if text.head? = some '(' then some 1 else none
  | closing, text => if text.head? = some ')' then some 1 else none
  | and, text => keyword? and.words text
  | or, text => keyword? or.words text
  | literal, text => keyword? literal.words text
  | identifier, text =>
    let name := text.takeWhile Text.isNameChar
    if name = [] ∨ (keyword? keywords text).isSome then none else some name.length
  | ending, text => if text = [] then some 0 else none

/-- A place in a text: how many characters are before it, and which are ahead. -/
structure Place where
  offset : Nat
  ahead : List Char

namespace Place

/-- The place behind the blanks. -/
def skip (place : Place) : Place :=
  ⟨place.offset + (place.ahead.takeWhile Token.isBlank).length, place.ahead.dropWhile Token.isBlank⟩

def advance (place : Place) (length : Nat) : Place :=
  ⟨place.offset + length, place.ahead.drop length⟩

/-- The beginning of a text. -/
def start (text : String) : Place := ⟨0, text.toList⟩

end Place

/-- The place behind a terminal, if the text goes on with it. -/
def Terminal.match? (kind : Terminal) (place : Place) : Option Place :=
  (kind.length? place.ahead).map place.advance

/-- A terminal that failed, and the offset behind the blanks where it did. -/
structure Trial where
  offset : Nat
  kind : Terminal

/-- A pattern is tried at a place: it comes to a later place or fails, and these terminals failed
meanwhile. -/
inductive Tries : Pattern → Place → Option Place → List Trial → Prop
  | hit {kind : Terminal} {place later : Place} : kind.match? place.skip = some later →
    Tries (.terminal kind) place (some later) []
  | miss {kind : Terminal} {place : Place} : kind.match? place.skip = none →
    Tries (.terminal kind) place none [⟨place.skip.offset, kind⟩]
  | rule {name : Rule} {place : Place} {result : Option Place} {trials : List Trial} :
    Tries name.pattern place result trials → Tries (.rule name) place result trials
  | both {first second : Pattern} {place middle : Place} {result : Option Place}
    {trials more : List Trial} :
    Tries first place (some middle) trials → Tries second middle result more →
    Tries (.both first second) place result (trials ++ more)
  | notBoth {first second : Pattern} {place : Place} {trials : List Trial} :
    Tries first place none trials → Tries (.both first second) place none trials
  | left {first second : Pattern} {place later : Place} {trials : List Trial} :
    Tries first place (some later) trials → Tries (.either first second) place (some later) trials
  | right {first second : Pattern} {place : Place} {result : Option Place}
    {trials more : List Trial} : Tries first place none trials → Tries second place result more →
    Tries (.either first second) place result (trials ++ more)
  | stop {body : Pattern} {place : Place} {trials : List Trial} :
    Tries body place none trials → Tries (.many body) place (some place) trials
  | again {body : Pattern} {place middle : Place} {result : Option Place}
    {trials more : List Trial} :
    Tries body place (some middle) trials → Tries (.many body) middle result more →
    Tries (.many body) place result (trials ++ more)

/-- No terminal failed beyond the offset, and these failed there, in this order. -/
def Furthest (trials : List Trial) (offset : Nat) (kinds : List Terminal) : Prop :=
  (∀ trial ∈ trials, trial.offset ≤ offset) ∧
    (trials.filter fun trial => trial.offset = offset).map Trial.kind = kinds

end Passage.Formula
