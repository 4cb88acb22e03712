import Passage.Formula.Tree

/-!
# The grammar of formulas as patterns

A rule of the grammar is a pattern of terminals and rules. A conjunction is a term with any number
of further terms behind it, each after its operator, and so is a disjunction of conjunctions; the
whole of a text is a disjunction up to the end. A pattern makes trees side by side, whatever reads
them.
-/
namespace Passage.Formula

/-- The kinds of what a formula is made of, and its end. -/
inductive Terminal where
  | opening
  | closing
  | and
  | or
  | literal
  | identifier
  | ending
deriving DecidableEq, Repr

/-- The words for a kind in an error. -/
def Terminal.label : Terminal → String
  | opening => "'('"
  | closing => "')'"
  | and => "and_op"
  | or => "or_op"
  | literal => "bool_literal"
  | identifier => "identifier"
  | ending => "EOF"

/-- The kind of a mark; a stray character has none. -/
def Mark.terminal? : Mark → Option Terminal
  | opening => some .opening
  | closing => some .closing
  | and => some .and
  | or => some .or
  | const _ => some .literal
  | name _ => some .identifier
  | stray _ => none

/-- What a rule is made of: terminals, rules, one thing after the other, alternatives in their
order, and repetitions. -/
inductive Pattern where
  | terminal (kind : Terminal)
  | rule (name : Rule)
  | both (first second : Pattern)
  | either (first second : Pattern)
  | many (body : Pattern)

def Rule.pattern : Rule → Pattern
  | group => .both (.terminal .opening) (.both (.rule .disjunction) (.terminal .closing))
  | term => .either (.rule .group) (.either (.terminal .literal) (.terminal .identifier))
  | conjunction => .both (.rule .term) (.many (.both (.terminal .and) (.rule .term)))
  | disjunction => .both (.rule .conjunction) (.many (.both (.terminal .or) (.rule .conjunction)))
  | whole => .both (.rule .disjunction) (.terminal .ending)

/-- A pattern makes these trees, side by side. -/
inductive Makes : Pattern → List Tree → Prop
  | terminal {kind : Terminal} {mark : Mark} : mark.terminal? = some kind →
    Makes (.terminal kind) [.token mark]
  | ending : Makes (.terminal .ending) [.ending]
  | rule {name : Rule} {children : List Tree} : Makes name.pattern children →
    Makes (.rule name) [.node name children]
  | both {first second : Pattern} {front back : List Tree} : Makes first front → Makes second back →
    Makes (.both first second) (front ++ back)
  | left {first second : Pattern} {trees : List Tree} : Makes first trees →
    Makes (.either first second) trees
  | right {first second : Pattern} {trees : List Tree} : Makes second trees →
    Makes (.either first second) trees
  | stop {body : Pattern} : Makes (.many body) []
  | again {body : Pattern} {front back : List Tree} : Makes body front → Makes (.many body) back →
    Makes (.many body) (front ++ back)

end Passage.Formula
