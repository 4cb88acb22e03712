/-!
# Decimals

A decimal is a number of units of a power of ten. It is written with a point where few zeros are
needed for that, and with an exponent otherwise; at least one digit stands on either side of a
point.
-/
namespace Passage

/-- So many units of ten to the power `exponent`. -/
structure Decimal where
  digits : Nat
  exponent : Int
deriving DecidableEq, Repr

namespace Decimal

/-- The exponent behind its mark: its sign, and at least two digits. -/
def exponentPart (n : Int) : List Char :=
  let digits := (toString n.natAbs).toList
  'e' :: (if n < 0 then '-' else '+') :: (List.replicate (2 - digits.length) '0' ++ digits)

/-- The digits, with a point behind the first one if there are more. -/
def scientific (digits : List Char) (exponent : Int) : List Char :=
  (match digits with
    | first :: second :: rest => first :: '.' :: second :: rest
    | digits => digits) ++ exponentPart exponent

/-- The digits with so many of them before the point; zeros fill the places without a digit. -/
def positional (digits : List Char) (point : Int) : List Char :=
  if point ≤ 0 then '0' :: '.' :: (List.replicate point.natAbs '0' ++ digits)
  else
    let whole := digits.take point.toNat
    let part := digits.drop point.toNat
    whole ++ List.replicate (point.toNat - whole.length) '0' ++
      '.' :: (if part.isEmpty then ['0'] else part)

/-- Numbers from 0.0001 on and below ten to the power 16 are written without an exponent. -/
def literal (d : Decimal) : String :=
  let digits := (toString d.digits).toList
  let point := digits.length + d.exponent
  String.ofList
    (if -4 < point ∧ point ≤ 16 then positional digits point else scientific digits (point - 1))

end Decimal

end Passage
