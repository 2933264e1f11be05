import GraphConformance.Distinct
import GraphConformance.Term

/-!
# Class expressions

An `Expression` describes a set of individuals: everything, nothing, a class given by its node, a
combination of other sets, a restriction of the values of a property, or a single individual.

Intersections and unions are built by `meet` and `join`, which drop repeated parts (and `meet` what
holds of everything) and collapse what is left when it has fewer than two parts.

Equality is decided by `beq` (`beq_iff`). The order `cmp` compares the kind of expression first, in
the order of the constructors, and then the parts from left to right.
-/

set_option autoImplicit false

namespace GraphConformance

open Vocabulary

/-- A description of a set of individuals. -/
inductive Expression where
  | top
  | bottom
  /-- The class of a node. -/
  | concept (node : Term)
  | conj (parts : List Expression)
  | disj (parts : List Expression)
  | compl (part : Expression)
  /-- Some value of the property belongs to the filler. -/
  | someOf (property : Term) (filler : Expression)
  /-- Every value of the property belongs to the filler. -/
  | onlyOf (property : Term) (filler : Expression)
  | atLeast (property : Term) (bound : Nat)
  | atMost (property : Term) (bound : Nat)
  | exactly (property : Term) (bound : Nat)
  /-- The property relates the individual to itself. -/
  | selfOf (property : Term)
  | valueOf (property value : Term)
  /-- The set of one individual. -/
  | nominal (individual : Term)
deriving Inhabited, Repr

namespace Expression

/-- The class of an IRI; two IRIs name everything and nothing. -/
def named (i : Iri) : Expression :=
  if i = Owl.thing then top else if i = Owl.nothing then bottom else concept (.iri i)

/-- Whether the expression is the one for everything. -/
def isTop : Expression → Bool
  | top => true
  | _ => false

/-- The node of a class. -/
def concept? : Expression → Option Term
  | concept node => some node
  | _ => none

/-- The property that an expression restricts. -/
def property? : Expression → Option Term
  | someOf p _ => some p
  | onlyOf p _ => some p
  | atLeast p _ => some p
  | atMost p _ => some p
  | exactly p _ => some p
  | selfOf p => some p
  | valueOf p _ => some p
  | _ => none

/-! ## Equality and order -/

mutual

/-- Whether two expressions are equal. -/
def beq : Expression → Expression → Bool
  | top, top => true
  | bottom, bottom => true
  | concept c, concept d => c = d
  | conj cs, conj ds => beqParts cs ds
  | disj cs, disj ds => beqParts cs ds
  | compl c, compl d => beq c d
  | someOf p c, someOf q d => p = q && beq c d
  | onlyOf p c, onlyOf q d => p = q && beq c d
  | atLeast p m, atLeast q n => p = q && m = n
  | atMost p m, atMost q n => p = q && m = n
  | exactly p m, exactly q n => p = q && m = n
  | selfOf p, selfOf q => p = q
  | valueOf p v, valueOf q w => p = q && v = w
  | nominal a, nominal b => a = b
  | _, _ => false

/-- Whether two lists of expressions are equal. -/
def beqParts : List Expression → List Expression → Bool
  | [], [] => true
  | c :: cs, d :: ds => beq c d && beqParts cs ds
  | _, _ => false

end

mutual

theorem beq_iff (c d : Expression) : beq c d = true ↔ c = d := by
  cases c <;> cases d <;> simp [beq, beq_iff, beqParts_iff]

theorem beqParts_iff (cs ds : List Expression) : beqParts cs ds = true ↔ cs = ds := by
  cases cs <;> cases ds <;> simp [beqParts, beq_iff, beqParts_iff]

end

instance : DecidableEq Expression := fun c d => decidable_of_iff _ (beq_iff c d)

/-- The place of the kind of an expression among the kinds. -/
def rank : Expression → Nat
  | top => 0
  | bottom => 1
  | concept _ => 2
  | conj _ => 3
  | disj _ => 4
  | compl _ => 5
  | someOf .. => 6
  | onlyOf .. => 7
  | atLeast .. => 8
  | atMost .. => 9
  | exactly .. => 10
  | selfOf _ => 11
  | valueOf .. => 12
  | nominal _ => 13

mutual

/-- The order of expressions: by kind, then by parts. -/
def cmp : Expression → Expression → Ordering
  | concept c, concept d => compare c d
  | conj cs, conj ds => cmpParts cs ds
  | disj cs, disj ds => cmpParts cs ds
  | compl c, compl d => cmp c d
  | someOf p c, someOf q d => (compare p q).then (cmp c d)
  | onlyOf p c, onlyOf q d => (compare p q).then (cmp c d)
  | atLeast p m, atLeast q n => (compare p q).then (compare m n)
  | atMost p m, atMost q n => (compare p q).then (compare m n)
  | exactly p m, exactly q n => (compare p q).then (compare m n)
  | selfOf p, selfOf q => compare p q
  | valueOf p v, valueOf q w => (compare p q).then (compare v w)
  | nominal a, nominal b => compare a b
  | c, d => compare c.rank d.rank

/-- The order of lists of expressions, from the first difference on. -/
def cmpParts : List Expression → List Expression → Ordering
  | [], [] => .eq
  | [], _ :: _ => .lt
  | _ :: _, [] => .gt
  | c :: cs, d :: ds => (cmp c d).then (cmpParts cs ds)

end

instance : Ord Expression := ⟨cmp⟩

/-! ## Intersections and unions -/

/-- The intersection of expressions. -/
def meet (parts : List Expression) : Expression :=
  match Distinct.dedup (parts.filter (!·.isTop)) with
  | [] => top
  | [part] => part
  | kept => conj kept

/-- The union of expressions. -/
def join (parts : List Expression) : Expression :=
  match Distinct.dedup parts with
  | [] => bottom
  | [part] => part
  | kept => disj kept

end Expression

end GraphConformance
