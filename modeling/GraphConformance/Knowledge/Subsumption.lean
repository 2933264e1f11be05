import GraphConformance.Expression.Reading
import GraphConformance.Knowledge.Closure

/-!
# Subsumption

Whether a store entails that one expression is contained in another is decided by rules on the two
expressions. `Store.step` is one round of the rules: it says what follows from answers about smaller
or told expressions, given as a function. `Store.entails` closes the rules up to a number of nested
rounds, and never asks about a pair again while that pair is being decided.

The rules take apart unions on the left and intersections on the right first, then look for a branch
of a union on the right, compare by the form on the right (`Store.stepByForm`), and last replace the
left side by something that contains it (`Store.stepByTold`).
-/

set_option autoImplicit false

namespace GraphConformance

open Vocabulary

namespace Store

/-- The told super-classes of a class. -/
def superClasses (s : Store) (c : Term) : List Expression :=
  (s.objects c Rdfs.subClassOf).map s.expression

/-- The told equivalents of a class, each once. -/
def equivalentClasses (s : Store) (c : Term) : List Expression :=
  Distinct.dedup
    ((s.objects c Owl.equivalentClass ++ s.subjects Owl.equivalentClass c).map s.expression)

/-- The rules for the form of the right side. -/
def stepByForm (s : Store) (ask : Expression → Expression → Bool) (sub sup : Expression) : Bool :=
  match sup, sub with
  -- a class contains its told sub-classes and what its definitions contain
  | .concept c, sub =>
    (match sub with
      | .concept d => decide (c ∈ s.toldSupers d)
      | _ => false) ||
      ((s.equivalentClasses c).filter (·.concept?.isNone)).any (ask sub ·)
  -- the values of a sub-property are values of the property
  | .someOf p filler, .someOf q other => s.isSubProperty q p && ask other filler
  | .someOf p filler, .atLeast q n => decide (1 ≤ n) && filler.isTop && s.isSubProperty q p
  | .someOf p filler, .exactly q n => decide (1 ≤ n) && filler.isTop && s.isSubProperty q p
  | .someOf p filler, .valueOf q v => s.isSubProperty q p && ask (.nominal v) filler
  -- what holds of all values holds of those of a sub-property
  | .onlyOf p filler, .onlyOf q other => s.isSubProperty p q && ask other filler
  -- a lower bound passes to the properties above, an upper bound to those below
  | .atLeast _ 0, _ => true
  | .atLeast p n, .atLeast q m => decide (n ≤ m) && s.isSubProperty q p
  | .atLeast p n, .exactly q m => decide (n ≤ m) && s.isSubProperty q p
  | .atLeast p 1, .someOf q _ => s.isSubProperty q p
  | .atLeast p 1, .valueOf q _ => s.isSubProperty q p
  | .atMost p n, .atMost q m => decide (m ≤ n) && s.isSubProperty p q
  | .atMost p n, .exactly q m => decide (m ≤ n) && s.isSubProperty p q
  | .exactly p n, .exactly q m => n = m && p = q
  | .selfOf p, .selfOf q => s.isSubProperty q p
  | .valueOf p v, .valueOf q w => v = w && s.isSubProperty q p
  | .valueOf p v, .someOf q (.nominal w) => w = v && s.isSubProperty q p
  -- complements turn containment around
  | .compl excluded, .compl other => ask excluded other
  | .compl (.concept excluded), .concept c => s.toldDisjoint c excluded
  | _, _ => false

/-- The rules that replace the left side by something that contains it. -/
def stepByTold (s : Store) (ask : Expression → Expression → Bool) (sub sup : Expression) : Bool :=
  match sub with
  | .conj parts => parts.any (ask · sup)
  | .concept c => (s.superClasses c ++ s.equivalentClasses c).any (ask · sup)
  | .nominal a => (s.types a).any fun t => ask (.concept t) sup
  | _ => false

/-- One round of the rules. -/
def step (s : Store) (ask : Expression → Expression → Bool) (sub sup : Expression) : Bool :=
  match sub, sup with
  | .disj branches, _ => branches.all (ask · sup)
  | _, .conj parts => parts.all (ask sub ·)
  | _, .disj branches => branches.any (ask sub ·) || s.stepByTold ask sub sup
  | _, _ => s.stepByForm ask sub sup || s.stepByTold ask sub sup

/-- Containments that hold in every store. -/
def holdsAnyway (sub sup : Expression) : Bool :=
  sub = sup || sup.isTop || sub = .bottom

/-- Whether containment follows within a number of nested rounds, none of which decides a pair that
is being decided already. -/
def entails (s : Store) :
    Nat → List (Expression × Expression) → Expression → Expression → Bool
  | 0, _, sub, sup => holdsAnyway sub sup
  | rounds + 1, path, sub, sup =>
    holdsAnyway sub sup ||
      -- a pair on the path counts as refused
      (decide ((sub, sup) ∉ path) &&
        s.step (s.entails rounds ((sub, sup) :: path)) sub sup)

/-- Whether the store entails containment; rounds may nest up to `maxDepth` deep. -/
def subsumes (s : Store) (maxDepth : Nat) (sub sup : Expression) : Bool :=
  s.entails (maxDepth + 1) [] sub sup

end Store

end GraphConformance
