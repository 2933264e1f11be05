import GraphConformance.Store.Basic
import GraphConformance.Turtle.Grammar

/-!
# Protocol documents

A document is a store together with the resource that it describes. The resource points at graphs,
each graph at its subjects, and the objects of a subject are what its other properties point at.

The resource of a store is found by its type, or failing that as the only node that has a graph.
-/

set_option autoImplicit false

namespace GraphConformance

open Vocabulary

/-- The role of an individual in a document. -/
inductive Role where
  | resource
  | graph
  | subject
  | object
deriving DecidableEq, Repr

namespace Role

/-- The roles from the resource down. -/
def all : List Role := [resource, graph, subject, object]

def name : Role → String
  | resource => "resource"
  | graph => "graph"
  | subject => "subject"
  | object => "object"

end Role

/-- A store and the resource that it describes. -/
structure Document where
  store : Store
  resource : Term

/-- Why a text gives no document. -/
inductive DocumentError where
  | noResource
  | ambiguousResource (count : Nat)
  | unknownResource (resource : Term)
  | unreadable (error : Turtle.ParseError)
deriving DecidableEq, Repr

def DocumentError.message : DocumentError → String
  | noResource => "Document declares no resource"
  | ambiguousResource count =>
    "Document declares " ++ Text.decimalText count ++ " resources, expected one"
  | unknownResource resource =>
    "Resource " ++ resource.display ++ " is not mentioned by the document"
  | unreadable error => error.message

namespace Document

/-- The document of a resource that the store mentions. -/
def about (store : Store) (resource : Term) : Except DocumentError Document :=
  if store.mentions resource then .ok ⟨store, resource⟩ else .error (.unknownResource resource)

/-- The nodes that may be the resource: those typed as one, or else those that have a graph. -/
def candidates (store : Store) : List Term :=
  match Distinct.dedup (store.subjects Rdf.type (.iri Protocol.resource)) with
  | [] =>
    Distinct.dedup
      ((store.triples.filter (·.predicate = .iri Protocol.hasGraph)).map Triple.subject)
  | typed => typed

/-- The document of the only node that may be the resource. -/
def discover (store : Store) : Except DocumentError Document :=
  match candidates store with
  | [] => .error .noResource
  | [resource] => .ok ⟨store, resource⟩
  | nodes => .error (.ambiguousResource nodes.length)

/-- The graphs of the resource. -/
def graphs (d : Document) : List Term :=
  Distinct.dedup (d.store.objects d.resource Protocol.hasGraph)

/-- The subjects of a graph. -/
def subjects (d : Document) (graph : Term) : List Term :=
  Distinct.dedup (d.store.objects graph Protocol.hasSubject)

/-- The objects of a subject: the individuals that its properties point at, structure aside. -/
def objects (d : Document) (subject : Term) : List Term :=
  let edges := (d.store.outgoing subject).filter fun (p, _) => !p.isReserved
  Distinct.dedup ((edges.map Prod.snd).filter Term.isIndividual)

end Document

end GraphConformance
