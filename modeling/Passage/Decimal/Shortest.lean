import Passage.Decimal

/-!
# The shortest decimal that reads back

A floating-point number stands for all reals that are rounded to it: from halfway to the number
below to halfway to the number above, the ends included if its significand is even. Its decimal is
taken from the coarsest power of ten with a multiple among those reals, so no decimal with fewer
digits reads back. Of two such multiples the nearer one is taken, of two equally near the even one.

All comparisons are made between natural numbers, without rounding.
-/
namespace Passage

/-- The positive number `significand` times two to the power `exponent`. -/
structure Binary where
  significand : Nat
  exponent : Int
deriving DecidableEq, Repr

namespace Binary

/-- A power of ten as `step`, and a quarter of the last binary place as `quarter`, in one unit. -/
structure Grid where
  step : Nat
  quarter : Nat

def grid (b : Binary) (power : Int) : Grid where
  step := Nat.pow 10 power.toNat * Nat.pow 2 (2 - b.exponent).toNat
  quarter := Nat.pow 2 (b.exponent - 2).toNat * Nat.pow 10 (-power).toNat

/-- How many quarters below the number its reals begin. Below a power of two numbers are twice as
dense, unless they have the least exponent already. -/
def below (b : Binary) : Nat :=
  if b.significand = Nat.pow 2 52 ∧ -1074 < b.exponent then 1 else 2

/-- Whether so many steps of a grid are rounded to the number. -/
def readsBack (b : Binary) (g : Grid) (steps : Nat) : Bool :=
  let low := (4 * b.significand - b.below) * g.quarter
  let high := (4 * b.significand + 2) * g.quarter
  if b.significand % 2 = 0 then decide (low ≤ steps * g.step ∧ steps * g.step ≤ high)
  else decide (low < steps * g.step ∧ steps * g.step < high)

/-- The nearest multiple of a power of ten that reads back. -/
def multiple? (b : Binary) (power : Int) : Option Nat :=
  let g := b.grid power
  let exact := 4 * b.significand * g.quarter
  let floor := exact / g.step
  match b.readsBack g floor, b.readsBack g (floor + 1) with
  | true, true =>
    match compare (2 * exact) ((2 * floor + 1) * g.step) with
    | .lt => some floor
    | .gt => some (floor + 1)
    | .eq => some (if floor % 2 = 0 then floor else floor + 1)
  | true, false => some floor
  | false, true => some (floor + 1)
  | false, false => none

/-- Tries the powers of ten downwards from so many above ten to the power -1074, of which every
number is a multiple. -/
def search (b : Binary) : Nat → Decimal
  | 0 => ⟨b.significand * Nat.pow 2 (b.exponent + 1074).toNat * Nat.pow 5 1074, -1074⟩
  | n + 1 =>
    let power : Int := n + 1 - 1074
    match b.multiple? power with
    | some digits => ⟨digits, power⟩
    | none => b.search n

/-- No number exceeds ten to the power 309. -/
def shortest (b : Binary) : Decimal := b.search (309 + 1074)

end Binary

/-- A floating-point number as its sign and what stands behind it. -/
inductive Magnitude where
  | zero
  | finite (b : Binary)
  | infinite
  | undefined
deriving DecidableEq, Repr

/-- The parts of a number, from its bits: a sign, eleven bits of exponent, and the rest. -/
def magnitude (x : Float) : Bool × Magnitude :=
  let bits := x.toBits.toNat
  let exponent := bits / Nat.pow 2 52 % 2048
  let rest := bits % Nat.pow 2 52
  (decide (Nat.pow 2 63 ≤ bits),
    if exponent = 2047 then if rest = 0 then .infinite else .undefined
    else if exponent = 0 then if rest = 0 then .zero else .finite ⟨rest, -1074⟩
    else .finite ⟨Nat.pow 2 52 + rest, exponent - 1075⟩)

def realLiteral (x : Float) : String :=
  let (negative, size) := magnitude x
  let sign := if negative then "-" else ""
  match size with
  | .zero => sign ++ "0.0"
  | .finite b => sign ++ b.shortest.literal
  | .infinite => sign ++ "inf"
  | .undefined => "nan"

end Passage
