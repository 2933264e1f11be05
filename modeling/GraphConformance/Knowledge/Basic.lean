import GraphConformance.Knowledge.Consistency
import GraphConformance.Knowledge.Reasoner
import GraphConformance.Knowledge.Subsumption

/-!
# Knowledge

What is known during a pass: a store, and how deep subsumption may go. Questions about an individual
that the store does not mention are refused.
-/

set_option autoImplicit false

namespace GraphConformance

/-- A store to ask. -/
structure Knowledge where
  store : Store
  maxDepth : Nat

namespace Knowledge

/-- An answer about an individual that the store mentions. -/
def ifMentioned {α : Type} (k : Knowledge) (individual : Term) (answer : α) :
    Except QueryError α :=
  if k.store.mentions individual then .ok answer else .error (.unknownIndividual individual)

/-- Whether every member of the first expression is a member of the second. -/
def subsumes (k : Knowledge) (sub sup : Expression) : Bool := k.store.subsumes k.maxDepth sub sup

/-- Whether two expressions have the same members. -/
def equivalent (k : Knowledge) (c d : Expression) : Bool := k.subsumes c d && k.subsumes d c

/-- The told types of an individual. -/
def types (k : Knowledge) (individual : Term) : Except QueryError (List Term) :=
  k.ifMentioned individual (k.store.types individual)

/-- The edges that leave an individual. -/
def edges (k : Knowledge) (individual : Term) : Except QueryError (List Edge) :=
  k.ifMentioned individual (k.store.outgoing individual)

/-- The answers of the store. -/
def reasoner (k : Knowledge) : Reasoner where
  subsumes := k.subsumes
  superClasses := k.store.superClasses
  equivalentClasses := k.store.equivalentClasses
  types := k.types
  edges := k.edges
  definedPairs := (2 * k.store.size) * (k.store.size + 1)

end Knowledge

end GraphConformance
