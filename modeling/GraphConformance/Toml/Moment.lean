import GraphConformance.Text.Decimal
import GraphConformance.Text.Radix

/-!
# Dates and times

A moment is a date of the Gregorian calendar, a time of day, or both, perhaps with the distance from
universal time. `Moment.text` is its normal form.
-/

set_option autoImplicit false

namespace GraphConformance.Toml

open Text

structure Date where
  year : Nat
  month : Nat
  day : Nat
deriving DecidableEq, Repr

structure Time where
  hour : Nat
  minute : Nat
  second : Nat
  /-- The decimal places of the second, at most nine and without zeros at the end. -/
  places : List Char
deriving DecidableEq, Repr

/-- The distance from universal time. -/
inductive Offset where
  | zero
  | ahead (hours minutes : Nat)
  | behind (hours minutes : Nat)
deriving DecidableEq, Repr

inductive Moment where
  | date (date : Date)
  | time (time : Time)
  | both (date : Date) (time : Time) (offset : Option Offset)
deriving DecidableEq, Repr

/-! ## Normal form -/

/-- A number with zeros in front of it up to a width. -/
def padded (width n : Nat) : List Char :=
  let digits := decimal n
  List.replicate (width - digits.length) '0' ++ digits

def Date.text (d : Date) : List Char :=
  padded 4 d.year ++ '-' :: padded 2 d.month ++ '-' :: padded 2 d.day

/-- Hours and minutes. -/
def clockText (hour minute : Nat) : List Char := padded 2 hour ++ ':' :: padded 2 minute

def Time.text (t : Time) : List Char :=
  clockText t.hour t.minute ++ ':' :: padded 2 t.second ++
    if t.places.isEmpty then [] else '.' :: t.places

def Offset.text : Offset → List Char
  | zero => ['Z']
  | ahead hours minutes => '+' :: clockText hours minutes
  | behind 0 0 => '+' :: clockText 0 0
  | behind hours minutes => '-' :: clockText hours minutes

def Moment.text : Moment → String
  | date d => String.ofList d.text
  | time t => String.ofList t.text
  | both d t offset => String.ofList (d.text ++ 'T' :: t.text ++ (offset.map Offset.text).getD [])

/-! ## Reading -/

/-- The number of days of a month. -/
def daysIn (year month : Nat) : Nat :=
  if month = 2 then
    if year % 4 = 0 ∧ (year % 100 ≠ 0 ∨ year % 400 = 0) then 29 else 28
  else if month = 4 ∨ month = 6 ∨ month = 9 ∨ month = 11 then 30
  else 31

/-- Two digits after a mark, with a value in a range. -/
def pairAfter? (m : Char) (least greatest : Nat) (s : List Char) : Option (Nat × Shorter s) :=
  match mark? m s with
  | some r =>
    ((fixed? 10 2 r.1).filter fun (n, _) => least ≤ n ∧ n ≤ greatest).map fun (n, q) =>
      (n, r.trans q)
  | none => none

/-- A date. -/
def date? (s : List Char) : Option (Date × Shorter s) :=
  match fixed? 10 4 s with
  | none => none
  | some (year, r) =>
    match pairAfter? '-' 1 12 r.1 with
    | none => none
    | some (month, q) =>
      (pairAfter? '-' 1 (daysIn year month) q.1).map fun (day, p) =>
        (⟨year, month, day⟩, (r.trans q).trans p)

/-- Hours and minutes of a day. -/
def clock? (s : List Char) : Option ((Nat × Nat) × Shorter s) :=
  match (fixed? 10 2 s).filter fun (hour, _) => hour ≤ 23 with
  | none => none
  | some (hour, r) =>
    (pairAfter? ':' 0 59 r.1).map fun (minute, q) => ((hour, minute), r.trans q)

/-- Decimal places in normal form. -/
def normalPlaces (digits : List Char) : List Char :=
  ((digits.take 9).reverse.dropWhile (· = '0')).reverse

/-- A time of day; a minute may have a leap second. -/
def time? (s : List Char) : Option (Time × Shorter s) :=
  match clock? s with
  | none => none
  | some ((hour, minute), r) =>
    match pairAfter? ':' 0 60 r.1 with
    | none => none
    | some (second, q) =>
      let q := r.trans q
      match mark? '.' q.1 with
      | none => some (⟨hour, minute, second, []⟩, q)
      | some p =>
        (run? Char.isDigit p.1).map fun (digits, p') =>
          (⟨hour, minute, second, normalPlaces digits⟩, (q.trans p).trans p')

/-- The distance from universal time. -/
def offset? (s : List Char) : Option (Offset × Shorter s) :=
  match (mark? 'Z' s).or (mark? 'z' s), mark? '+' s, mark? '-' s with
  | some r, _, _ => some (.zero, r)
  | none, some r, _ =>
    (clock? r.1).map fun ((hours, minutes), q) => (.ahead hours minutes, r.trans q)
  | none, none, some r =>
    (clock? r.1).map fun ((hours, minutes), q) => (.behind hours minutes, r.trans q)
  | none, none, none => none

/-- The time after the mark that separates it from a date. -/
def timeAfter? (s : List Char) : Option (Time × Shorter s) :=
  match ((mark? 'T' s).or (mark? 't' s)).or (mark? ' ' s) with
  | some r => (time? r.1).map fun (t, q) => (t, r.trans q)
  | none => none

/-- A date, a time or both. -/
def moment? (s : List Char) : Option (Moment × Shorter s) :=
  match date? s with
  | none => (time? s).map fun (t, r) => (.time t, r)
  | some (d, r) =>
    match timeAfter? r.1 with
    | none => some (.date d, r)
    | some (t, q) =>
      let q := r.trans q
      match offset? q.1 with
      | none => some (.both d t none, q)
      | some (offset, p) => some (.both d t (some offset), q.trans p)

end GraphConformance.Toml
