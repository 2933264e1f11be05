import GraphConformance.Knowledge.Closure
import GraphConformance.Knowledge.Error

/-!
# Consistency

A store is inconsistent when the told hierarchy puts an individual into the empty class or into two
classes that are told to be disjoint. The individuals are looked at in order of their first type,
and the first clash is reported.
-/

set_option autoImplicit false

namespace GraphConformance

open Vocabulary Knowledge

namespace Store

/-- The individuals with a type. -/
def typedIndividuals (s : Store) : List Term :=
  Distinct.dedup ((s.triples.filter (·.predicate = .iri Rdf.type)).map Triple.subject)

/-- The classes of an individual: its types and the named classes above them. -/
def typeClosure (s : Store) (individual : Term) : List Term :=
  (s.types individual).foldl (fun closure c => Distinct.union closure (s.toldSupers c)) []

/-- Two classes of a list that are told to be disjoint. -/
def disjointPair? (s : Store) (classes : List Term) : Option (Term × Term) :=
  classes.findSome? fun c =>
    ((s.objects c Owl.disjointWith).find? (· ∈ classes)).map fun d => (c, d)

/-- Why an individual with the given classes cannot be. -/
def clash? (s : Store) (individual : Term) (classes : List Term) : Option String :=
  if Term.iri Owl.nothing ∈ classes then
    some (individual.display ++ " is a member of owl:Nothing")
  else
    (s.disjointPair? classes).map fun (c, d) =>
      individual.display ++ " is a member of disjoint classes " ++ c.display ++ " and " ++ d.display

/-- Accept the store, or report the first clash. -/
def checkConsistency (s : Store) : Except QueryError Unit :=
  match s.typedIndividuals.findSome? fun a => s.clash? a (s.typeClosure a) with
  | some reason => .error (.inconsistent reason)
  | none => .ok ()

end Store

end GraphConformance
