/-!
# Reading from the start of a text

A reader takes a text and answers what stands at its start together with the rest of the text. The
rest is strictly shorter (`Shorter`), so whoever reads on makes progress.
-/

set_option autoImplicit false

namespace GraphConformance.Text

/-- What is left of a text after something was read. -/
abbrev Shorter (s : List Char) := { r : List Char // r.length < s.length }

namespace Shorter

/-- The rest of a rest. -/
def trans {s : List Char} (r : Shorter s) (q : Shorter r.1) : Shorter s :=
  ⟨q.1, Nat.lt_trans q.2 r.2⟩

/-- A rest after one more character in front. -/
def cons {s : List Char} (c : Char) (r : Shorter s) : Shorter (c :: s) :=
  ⟨r.1, Nat.lt_succ_of_lt r.2⟩

/-- All but the first character. -/
def tail (c : Char) (s : List Char) : Shorter (c :: s) := ⟨s, Nat.lt_succ_self _⟩

/-- A rest of which a function that never lengthens a text leaves a part. -/
def shrink {s : List Char} (r : Shorter s) {f : List Char → List Char}
    (h : ∀ t, (f t).length ≤ t.length) : Shorter s :=
  ⟨f r.1, Nat.lt_of_le_of_lt (h r.1) r.2⟩

end Shorter

theorem length_dropWhile_le (p : Char → Bool) (s : List Char) :
    (s.dropWhile p).length ≤ s.length :=
  (List.dropWhile_suffix p).length_le

/-- The text after a given first character. -/
def mark? (m : Char) : (s : List Char) → Option (Shorter s)
  | [] => none
  | c :: rest => if c = m then some (.tail c rest) else none

/-- The text after a given non-empty start. -/
def word? : (word s : List Char) → Option (Shorter s)
  | [], _ => none
  | _ :: _, [] => none
  | [w], c :: rest => if c = w then some (.tail c rest) else none
  | w :: w' :: word, c :: rest => if c = w then (word? (w' :: word) rest).map (.cons c) else none

/-- A non-empty run of characters of a class. -/
def run? (p : Char → Bool) (s : List Char) : Option (List Char × Shorter s) :=
  match s with
  | [] => none
  | c :: rest =>
    if p c then
      some (c :: rest.takeWhile p,
        ⟨rest.dropWhile p, Nat.lt_succ_of_le (length_dropWhile_le p rest)⟩)
    else none

end GraphConformance.Text
