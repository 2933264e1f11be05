import GraphConformance.Table
import GraphConformance.Term

/-!
# Mappings

A `Mapping` pairs instance individuals with template individuals. Each instance individual that was
considered has an entry: a required one stands for its template individual alone, an optional one
may share it with others or have none.
-/

set_option autoImplicit false

namespace GraphConformance

/-- The template individual that an instance individual is paired with. -/
inductive Pairing where
  | required (template : Term)
  | optional (template : Option Term)
deriving DecidableEq, Repr

namespace Pairing

def template? : Pairing → Option Term
  | required template => some template
  | optional template => template

def isRequired : Pairing → Bool
  | required _ => true
  | optional _ => false

end Pairing

/-- The pairings of instance individuals, in order. -/
abbrev Mapping := Table Term Pairing

namespace Mapping

/-- The template individual of an instance individual. -/
def template? (m : Mapping) (individual : Term) : Option Term :=
  (m.get? individual).bind Pairing.template?

/-- Whether an instance individual stands for its template individual alone. -/
def isRequired (m : Mapping) (individual : Term) : Bool :=
  (m.get? individual).any Pairing.isRequired

/-- The pairs of the mapping, individuals without a partner left out. -/
def pairs (m : Mapping) : List (Term × Term) :=
  m.entries.filterMap fun (individual, p) => p.template?.map fun template => (individual, template)

end Mapping

end GraphConformance
