/-!
# Natural numbers in decimal

`decimal` writes a natural number without leading zeros and `natural?` reads a non-empty run of
ASCII digits. `count?` reads the counts of a document: an optional plus sign, then digits, the value
below `countLimit`. What is written is read back (`natural?_decimal`, `count?_decimal`).
-/

set_option autoImplicit false

namespace GraphConformance.Text

/-- The ASCII digit of a number below ten. -/
def digitChar (d : Nat) : Char := Char.ofNat (48 + d)

/-- A natural number in decimal, most significant digit first. -/
def decimal (n : Nat) : List Char :=
  if n < 10 then [digitChar n] else decimal (n / 10) ++ [digitChar (n % 10)]

/-- A natural number in decimal, as a text. -/
def decimalText (n : Nat) : String := String.ofList (decimal n)

/-- The value of an ASCII digit. -/
def digitValue? (c : Char) : Option Nat :=
  if c.isDigit then some (c.toNat - 48) else none

/-- The value of a run of ASCII digits read after the digits of `value`. -/
def extendValue? (value : Nat) : List Char → Option Nat
  | [] => some value
  | c :: rest =>
    match digitValue? c with
    | some d => extendValue? (value * 10 + d) rest
    | none => none

/-- The value of a non-empty run of ASCII digits. -/
def natural? : List Char → Option Nat
  | [] => none
  | text => extendValue? 0 text

/-- Counts are below this bound, the number of words of 64 bits. -/
def countLimit : Nat := 18446744073709551616

/-- A count: an optional plus sign and ASCII digits with a value below the bound. -/
def count? (text : List Char) : Option Nat :=
  let digits :=
    match text with
    | '+' :: rest => rest
    | _ => text
  match natural? digits with
  | some n => if n < countLimit then some n else none
  | none => none

/-! ## Numbers and their digits -/

theorem digitValue?_digitChar : ∀ d < 10, digitValue? (digitChar d) = some d := by decide

theorem extendValue?_append (value : Nat) (first second : List Char) :
    extendValue? value (first ++ second) =
      (extendValue? value first).bind (extendValue? · second) := by
  induction first generalizing value with
  | nil => rfl
  | cons c first ih =>
    simp only [List.cons_append, extendValue?]
    cases digitValue? c with
    | none => rfl
    | some d => exact ih _

/-- The decimal form of a number has its value. -/
theorem extendValue?_decimal (n : Nat) : extendValue? 0 (decimal n) = some n := by
  induction n using decimal.induct with
  | case1 n hn =>
    rw [decimal, if_pos hn]
    simp [extendValue?, digitValue?_digitChar n hn]
  | case2 n hn ih =>
    have hmod : n % 10 < 10 := Nat.mod_lt n (by decide)
    rw [decimal, if_neg hn, extendValue?_append, ih]
    simp only [Option.bind_some, extendValue?, digitValue?_digitChar _ hmod]
    congr 1
    omega

theorem decimal_injective : Function.Injective decimal := by
  intro m n h
  have hvalue := congrArg (extendValue? 0) h
  rw [extendValue?_decimal, extendValue?_decimal] at hvalue
  exact Option.some.inj hvalue

theorem forall_mem_decimal (p : Char → Bool) (h : ∀ d < 10, p (digitChar d) = true) (n : Nat) :
    ∀ c ∈ decimal n, p c = true := by
  induction n using decimal.induct with
  | case1 n hn =>
    rw [decimal, if_pos hn]
    simpa using h n hn
  | case2 n hn ih =>
    rw [decimal, if_neg hn]
    intro c hc
    rcases List.mem_append.mp hc with hc | hc
    · exact ih c hc
    · rw [List.mem_singleton.mp hc]
      exact h _ (Nat.mod_lt n (by decide))

theorem ne_plus_of_mem_decimal {n : Nat} {c : Char} (h : c ∈ decimal n) : c ≠ '+' := by
  simpa using forall_mem_decimal (· != '+') (by decide) n c h

theorem decimal_ne_nil (n : Nat) : decimal n ≠ [] := by
  rw [decimal]
  split <;> simp

theorem extendValue?_zeros (zeros : Nat) :
    extendValue? 0 (List.replicate zeros '0') = some 0 := by
  induction zeros with
  | zero => rfl
  | succ zeros ih => exact ih

/-- Zeros in front of a number do not change it. -/
theorem natural?_decimal (zeros n : Nat) :
    natural? (List.replicate zeros '0' ++ decimal n) = some n := by
  rw [natural?]
  · rw [extendValue?_append, extendValue?_zeros, Option.bind_some, extendValue?_decimal]
  · simp [decimal_ne_nil n]

/-- A count below the bound is read, with a plus sign or without. -/
theorem count?_decimal {sign : List Char} (hsign : sign = [] ∨ sign = ['+']) (zeros : Nat)
    {n : Nat} (hn : n < countLimit) :
    count? (sign ++ (List.replicate zeros '0' ++ decimal n)) = some n := by
  have hdigits : ∀ rest, List.replicate zeros '0' ++ decimal n ≠ '+' :: rest := by
    intro rest heq
    have hmem : '+' ∈ List.replicate zeros '0' ++ decimal n := by
      rw [heq]
      exact List.mem_cons_self
    rcases List.mem_append.mp hmem with hzero | hdigit
    · exact absurd (List.eq_of_mem_replicate hzero) (by decide)
    · exact ne_plus_of_mem_decimal hdigit rfl
  rcases hsign with rfl | rfl
  · rw [List.nil_append, count?]
    · simp only [natural?_decimal, if_pos hn]
    · exact hdigits
  · rw [List.singleton_append, count?]
    simp only [natural?_decimal, if_pos hn]

end GraphConformance.Text
