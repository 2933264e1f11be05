import GraphConformance.Expression.Basic
import GraphConformance.Knowledge.Error
import GraphConformance.Store.Basic

/-!
# Questions to a knowledge base

A `Reasoner` answers the questions that a translator asks. It need not be a store: whoever answers
them may stand in for one.
-/

set_option autoImplicit false

namespace GraphConformance

open Knowledge

/-- The questions that a translator asks, as functions. -/
structure Reasoner where
  /-- Whether every member of the first expression is a member of the second. -/
  subsumes : Expression → Expression → Bool
  /-- The told super-classes of a class. -/
  superClasses : Term → List Expression
  /-- The told equivalents of a class. -/
  equivalentClasses : Term → List Expression
  /-- The told types of an individual. -/
  types : Term → Except QueryError (List Term)
  /-- The edges that leave an individual. -/
  edges : Term → Except QueryError (List Edge)
  /-- A bound of the pairs of a class that has a definition and an individual. -/
  definedPairs : Nat

end GraphConformance
