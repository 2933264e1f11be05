import GraphConformance.Text.Numeral
import GraphConformance.Text.Radix
import GraphConformance.Toml.Value

/-!
# Numbers of a configuration text

Integers of 64 bits in decimal, hexadecimal, octal and binary form, and numbers with a fraction or
an exponent, infinities and not-a-number among them. Single underscores may separate digits.
-/

set_option autoImplicit false

namespace GraphConformance.Toml

open Text

/-- A text without the underscore at its start. -/
def skipUnderscore : List Char → List Char
  | '_' :: rest => rest
  | s => s

theorem length_skipUnderscore_le (s : List Char) : (skipUnderscore s).length ≤ s.length := by
  unfold skipUnderscore
  split
  · exact Nat.le_succ _
  · exact Nat.le_refl _

/-- Digits of a base, with single underscores between them. -/
def digits? (base : Nat) (s : List Char) : Option (List Char × Shorter s) :=
  match s with
  | [] => none
  | c :: rest =>
    if (digitIn? base c).isNone then none
    else
      have h := length_skipUnderscore_le rest
      match digits? base (skipUnderscore rest) with
      | some (more, r) => some (c :: more, ⟨r.1, Nat.lt_succ_of_lt (Nat.lt_of_lt_of_le r.2 h)⟩)
      | none => some ([c], .tail c rest)
termination_by s.length
decreasing_by exact Nat.lt_succ_of_le h

/-- The value of digits in a base. -/
def valueIn (base : Nat) (digits : List Char) : Nat := (extendIn? base 0 digits).getD 0

/-- Digits that do not start with a zero, or a zero alone. -/
def whole? (s : List Char) : Option (List Char × Shorter s) :=
  (digits? 10 s).filter fun (digits, _) => digits.head? ≠ some '0' ∨ digits = ['0']

/-- Read after an optional sign. The flag tells whether it is a minus. -/
def signed? {α : Type} (read : (t : List Char) → Option (α × Shorter t)) (s : List Char) :
    Option ((Bool × α) × Shorter s) :=
  match mark? '-' s with
  | some r => (read r.1).map fun (a, q) => ((true, a), r.trans q)
  | none =>
    match mark? '+' s with
    | some r => (read r.1).map fun (a, q) => ((false, a), r.trans q)
    | none => (read s).map fun (a, q) => ((false, a), q)

/-- A number with its sign. -/
def withSign (negative : Bool) (n : Nat) : Int := if negative then -(n : Int) else n

/-! ## Integers -/

/-- A number after the mark of its base. -/
def marked? (base : Nat) (letter : Char) (s : List Char) : Option (Int × Shorter s) :=
  match word? ['0', letter] s with
  | some r => (digits? base r.1).map fun (digits, q) => ((valueIn base digits : Int), r.trans q)
  | none => none

/-- A number in decimal. -/
def decimal? (s : List Char) : Option (Int × Shorter s) :=
  (signed? whole? s).map fun ((negative, digits), r) => (withSign negative (valueIn 10 digits), r)

/-- Whether a number is in the range of integers. -/
def inRange (n : Int) : Bool := -(integerLimit : Int) ≤ n && n < (integerLimit : Int)

/-- An integer. -/
def integer? (s : List Char) : Option (Int × Shorter s) :=
  ((((marked? 16 'x' s).or (marked? 8 'o' s)).or (marked? 2 'b' s)).or (decimal? s)).filter
    fun (n, _) => inRange n

/-! ## Fractions and exponents -/

/-- The digits after a point. -/
def places? (s : List Char) : Option (List Char × Shorter s) :=
  match mark? '.' s with
  | some r => (digits? 10 r.1).map fun (digits, q) => (digits, r.trans q)
  | none => none

/-- The letter of an exponent and the number after it. -/
def power? (s : List Char) : Option (Int × Shorter s) :=
  match (mark? 'e' s).or (mark? 'E' s) with
  | some r =>
    (signed? (digits? 10) r.1).map fun ((negative, digits), q) =>
      (withSign negative (valueIn 10 digits), r.trans q)
  | none => none

/-- Digits with a fraction, an exponent or both after them. -/
def numeral? (s : List Char) : Option (Numeral × Shorter s) :=
  match whole? s with
  | none => none
  | some (whole, r) =>
    match places? r.1 with
    | none => (power? r.1).map fun (e, q) => (⟨whole, [], e⟩, r.trans q)
    | some (places, q) =>
      let q := r.trans q
      match power? q.1 with
      | none => some (⟨whole, places, 0⟩, q)
      | some (e, p) => some (⟨whole, places, e⟩, q.trans p)

/-- The words for numbers that no digits can write. -/
def special? (s : List Char) : Option (Unit × Shorter s) :=
  ((word? "inf".toList s).or (word? "nan".toList s)).map fun r => ((), r)

/-- What stands before a rest. -/
def writtenBefore {s : List Char} (r : Shorter s) : String :=
  String.ofList (s.take (s.length - r.1.length))

/-- A number with a fraction or an exponent, or a special one. A positive number written with digits
must not round to infinity. -/
def float? (s : List Char) : Option (String × Shorter s) :=
  match signed? numeral? s with
  | some ((negative, n), r) =>
    if !negative ∧ n.overflows then none else some (writtenBefore r, r)
  | none => (signed? special? s).map fun (_, r) => (writtenBefore r, r)

end GraphConformance.Toml
