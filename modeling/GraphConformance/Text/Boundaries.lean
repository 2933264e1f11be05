/-!
# Character classes by their boundaries

A class of characters is given by the increasing list of code points at which membership changes:
the first opens a range, the second closes it (and is outside), the third opens the next, and so on.
-/

set_option autoImplicit false

namespace GraphConformance.Text

/-- Whether a character lies in one of the ranges that the boundaries enclose. -/
def within (boundaries : List Nat) (c : Char) : Bool :=
  (boundaries.takeWhile (· ≤ c.toNat)).length % 2 == 1

end GraphConformance.Text
