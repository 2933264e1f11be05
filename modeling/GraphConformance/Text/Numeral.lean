/-!
# Decimal numerals

A numeral has digits before and after a point and an exponent. `Numeral.overflows` tells whether the
nearest double is infinite.
-/

set_option autoImplicit false

namespace GraphConformance.Text

/-- The parts of a number, its sign aside. -/
structure Numeral where
  whole : List Char
  places : List Char
  exponent : Int
deriving DecidableEq, Repr

/-- The least number that rounds to infinity: half a unit above the greatest double. -/
def overflowBound : Nat := Nat.pow 2 1024 - Nat.pow 2 970

/-- Whether the nearest double is infinite. The count of digits decides unless the number is near
the bound. -/
def Numeral.overflows (n : Numeral) : Bool :=
  let digits := (n.whole ++ n.places).dropWhile (· = '0')
  let shift := n.exponent - n.places.length
  let magnitude : Int := digits.length + shift
  if digits.isEmpty ∨ magnitude < 300 then false
  else if 400 < magnitude then true
  else
    let value := digits.foldl (fun value c => value * 10 + (c.toNat - 48)) 0
    overflowBound * Nat.pow 10 (-shift).toNat ≤ value * Nat.pow 10 shift.toNat

end GraphConformance.Text
