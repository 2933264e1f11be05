import GraphConformance.Text.Shorter

/-!
# Digits in other bases

Bases up to sixteen: the letters `a` to `f`, of either case, follow the digits. `fixed?` reads a
number of a given count of digits.
-/

set_option autoImplicit false

namespace GraphConformance.Text

/-- The value of a hexadecimal digit. -/
def hexValue? (c : Char) : Option Nat :=
  if c.isDigit then some (c.toNat - 48)
  else if 'a' ≤ c ∧ c ≤ 'f' then some (c.toNat - 87)
  else if 'A' ≤ c ∧ c ≤ 'F' then some (c.toNat - 55)
  else none

/-- The value of a digit in a base. -/
def digitIn? (base : Nat) (c : Char) : Option Nat := (hexValue? c).filter (· < base)

/-- The value of digits in a base, read after the digits of `value`. -/
def extendIn? (base value : Nat) : List Char → Option Nat
  | [] => some value
  | c :: rest =>
    match digitIn? base c with
    | some d => extendIn? base (value * base + d) rest
    | none => none

/-- A number of exactly so many digits, which are not none. -/
def fixed? (base count : Nat) (s : List Char) : Option (Nat × Shorter s) :=
  if h : 0 < count ∧ count ≤ s.length then
    (extendIn? base 0 (s.take count)).map fun value =>
      (value, ⟨s.drop count, by rw [List.length_drop]; omega⟩)
  else none

/-- The hexadecimal digit of a number below sixteen, in lower case. -/
def hexDigit (d : Nat) : Char :=
  if d < 10 then Char.ofNat (48 + d) else Char.ofNat (87 + d)

end GraphConformance.Text
