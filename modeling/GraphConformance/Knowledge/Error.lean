import GraphConformance.Term

/-!
# Errors of a knowledge base

A knowledge base refuses questions about an individual that it does not mention, and reports why it
is inconsistent.
-/

set_option autoImplicit false

namespace GraphConformance.Knowledge

inductive QueryError where
  | unknownIndividual (individual : Term)
  | inconsistent (reason : String)
deriving DecidableEq, Repr

def QueryError.message : QueryError → String
  | unknownIndividual individual => "Unknown individual: " ++ individual.display
  | inconsistent reason => "Inconsistent knowledge base: " ++ reason

end GraphConformance.Knowledge
