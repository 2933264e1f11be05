import GraphConformance.Text.Decimal
import GraphConformance.Text.Numeral
import GraphConformance.Text.Shorter

/-!
# Numbers of structured values

A number has an optional minus sign, an integer part without superfluous zeros, perhaps a fraction
and perhaps an exponent. A number that rounds to infinity as a double is refused
(`inRange`): its first digits, as many as fit into 64 bits, are rounded to a double and
multiplied by the double nearest to the power of ten that is left, and the product must round to a
finite double.
-/

set_option autoImplicit false

namespace GraphConformance.Json

open Text

/-- The integer part: a zero alone, or digits that do not start with one. -/
def whole? (s : List Char) : Option (List Char × Shorter s) :=
  match run? Char.isDigit s with
  | some (digits, r) => if digits.head? = some '0' ∧ digits ≠ ['0'] then none else some (digits, r)
  | none => none

/-- The digits after a point. -/
def places? (s : List Char) : Option (List Char × Shorter s) :=
  match mark? '.' s with
  | some r => (run? Char.isDigit r.1).map fun (digits, q) => (digits, r.trans q)
  | none => none

/-- The value of a run of digits. -/
def valueOf (digits : List Char) : Nat := (extendValue? 0 digits).getD 0

/-- The sign and digits after the letter of an exponent. -/
def power? (s : List Char) : Option (Int × Shorter s) :=
  match mark? '-' s with
  | some r => (run? Char.isDigit r.1).map fun (digits, q) => (-(valueOf digits : Int), r.trans q)
  | none =>
    match mark? '+' s with
    | some r => (run? Char.isDigit r.1).map fun (digits, q) => ((valueOf digits : Int), r.trans q)
    | none => (run? Char.isDigit s).map fun (digits, q) => ((valueOf digits : Int), q)

/-- The letter that starts an exponent. -/
def powerMark? (s : List Char) : Option (Shorter s) := (mark? 'e' s).or (mark? 'E' s)

/-- The exponent of a number, zero when there is none; a letter without digits is an error. -/
def withPower (n : Numeral) {s : List Char} (r : Shorter s) : Option (Numeral × Shorter s) :=
  match powerMark? r.1 with
  | some q => (power? q.1).map fun (e, p) => ({ n with exponent := e }, (r.trans q).trans p)
  | none => some (n, r)

/-- A number without sign. -/
def magnitude? (s : List Char) : Option (Numeral × Shorter s) :=
  match whole? s with
  | none => none
  | some (whole, r) =>
    match mark? '.' r.1 with
    | none => withPower ⟨whole, [], 0⟩ r
    | some _ =>
      match places? r.1 with
      | none => none
      | some (places, q) => withPower ⟨whole, places, 0⟩ (r.trans q)

/-! ## Range -/

/-- The longest start of the digits after `value` that keeps the value below 2 to the 64, and how
many digits are left over. -/
def absorb (value : Nat) : List Char → Nat × Nat
  | [] => (value, 0)
  | c :: rest =>
    let next := value * 10 + (c.toNat - 48)
    if next < countLimit then absorb next rest else (value, rest.length + 1)

/-- A natural number rounded to 53 binary digits, ties to even. -/
def roundToDouble (n : Nat) : Nat :=
  let unit := Nat.pow 2 (n.log2 - 52)
  let below := n / unit
  let twice := 2 * (n % unit)
  if unit < twice ∨ (unit = twice ∧ below % 2 = 1) then (below + 1) * unit else below * unit

/-- Whether the number has a finite double. -/
def inRange (n : Numeral) : Bool :=
  let (start, dropped) := absorb 0 n.whole
  let (value, unread) := absorb start n.places
  let shift : Int := n.exponent + dropped - (n.places.length - unread : Nat)
  if value = 0 ∨ shift < 0 then true
  else if 308 < shift then false
  else roundToDouble value * roundToDouble (Nat.pow 10 shift.toNat) < overflowBound

/-- A number with its sign: the text of it, if it is in range. -/
def number? (s : List Char) : Option (String × Shorter s) :=
  let signed? : Option (Numeral × Shorter s) :=
    match mark? '-' s with
    | some r => (magnitude? r.1).map fun (n, q) => (n, r.trans q)
    | none => magnitude? s
  match signed? with
  | some (n, r) =>
    if inRange n then some (String.ofList (s.take (s.length - r.1.length)), r) else none
  | none => none

end GraphConformance.Json
