import GraphConformance.Knowledge.Basic

/-!
# Profiles

The profile of an individual is the intersection of what its types and edges say about it: its
types, and for each edge that some value of the property has the profile of the edge's end. A
literal has its datatype as profile. Vocabulary that describes the structure of documents is left
out, and so is a type that is the individual itself.

Profiles are built depth first, and each edge is followed only once, wherever it is met first; met
again, it says no more than that there is a value. So a profile needs no more depth than there are
triples.
-/

set_option autoImplicit false

namespace GraphConformance

namespace Term

/-- The expression for a type, unless the type is a literal or describes structure. -/
def typeExpression? : Term → Option Expression
  | .iri i => if Vocabulary.isReserved i then none else some (.named i)
  | .blank b => some (.concept (.blank b))
  | .literal _ => none

end Term

namespace Knowledge

/-- The expressions for the types of an individual. -/
def typeParts (individual : Term) (types : List Term) : List Expression :=
  (types.filter (· ≠ individual)).filterMap Term.typeExpression?

/-- The intersection of the types of an individual. -/
def typeProfile (k : Knowledge) (individual : Term) : Except QueryError Expression := do
  let types ← k.types individual
  return .meet (typeParts individual types)

/-- A profile and the edges followed for it, those before it included. -/
abbrev Described := Except QueryError (Expression × List Triple)

/-- What the edges of an individual say about it, and the edges followed. -/
def edgeParts (describe : Term → List Triple → Described) (individual : Term) :
    List Edge → List Triple → Except QueryError (List Expression × List Triple)
  | [], followed => .ok ([], followed)
  | (property, value) :: rest, followed =>
    if property.isReserved then edgeParts describe individual rest followed
    else if ⟨individual, property, value⟩ ∈ followed then do
      let (parts, followed) ← edgeParts describe individual rest followed
      return (.someOf property .top :: parts, followed)
    else do
      let (filler, followed) ← describe value (followed ++ [⟨individual, property, value⟩])
      let (parts, followed) ← edgeParts describe individual rest followed
      return (.someOf property filler :: parts, followed)

/-- The identity of an individual that has a name. -/
def identityPart (wanted : Bool) (individual : Term) : List Expression :=
  if wanted && !individual.isAnonymous then [.nominal individual] else []

/-- The profile of an individual when some edges have been followed. -/
def describe (k : Knowledge) (nested : Bool) : Nat → Bool → Term → List Triple → Described
  | _, _, .literal l, followed => .ok (.concept (.iri l.effectiveDatatype), followed)
  | 0, _, _, followed => .ok (.top, followed)
  | depth + 1, identity, individual, followed => do
    let types ← k.types individual
    let edges ← k.edges individual
    let (parts, followed) ← edgeParts (k.describe nested depth nested) individual edges followed
    let own := identityPart identity individual ++ typeParts individual types
    return (.meet (own ++ parts), followed)

/-- The profile of an individual. Its own identity, and those of the individuals it leads to, are
part of the profile when asked for. -/
def profile (k : Knowledge) (individual : Term) (identity nested : Bool) :
    Except QueryError Expression := do
  let (expression, _) ← k.describe nested (k.store.size + 1) identity individual []
  return expression

end Knowledge

end GraphConformance
