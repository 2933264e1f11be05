import GraphConformance.Knowledge.Basic

/-!
# Imports

A `KnowledgeBase` answers from its ontology, or while documents are imported from the ontology with
these documents added in order. At most one import is active; it holds a ticket that no other import
ever gets, and only that ticket ends it.
-/

set_option autoImplicit false

namespace GraphConformance

/-- An ontology, and perhaps documents imported into it. -/
structure KnowledgeBase where
  ontology : Store
  maxDepth : Nat
  /-- The ticket of the active import. -/
  active : Option Nat
  nextTicket : Nat
  /-- The ontology and the imported documents. -/
  view : Store

namespace KnowledgeBase

/-- How deep subsumption goes when nothing else is asked for. -/
def defaultMaxDepth : Nat := 32

/-- The knowledge base of an ontology. -/
def ofOntology (ontology : Store) (maxDepth : Nat) : KnowledgeBase :=
  ⟨ontology, maxDepth, none, 0, ontology⟩

/-- What is known now. -/
def knowledge (kb : KnowledgeBase) : Knowledge := ⟨kb.view, kb.maxDepth⟩

/-- Import documents and get a ticket; refused while an import is active. -/
def importAll? (kb : KnowledgeBase) (documents : List Store) : Option (Nat × KnowledgeBase) :=
  match kb.active with
  | some _ => none
  | none =>
    some
      (kb.nextTicket,
        { kb with
          active := some kb.nextTicket
          nextTicket := kb.nextTicket + 1
          view := documents.foldl Store.merge kb.ontology })

/-- End the import of a ticket; a ticket that is not active changes nothing. -/
def release (kb : KnowledgeBase) (ticket : Nat) : KnowledgeBase :=
  if kb.active = some ticket then { kb with active := none, view := kb.ontology } else kb

/-- Run with documents imported and end the import again; refused while an import is active. -/
def withImported? {α : Type} (kb : KnowledgeBase) (documents : List Store)
    (run : KnowledgeBase → α × KnowledgeBase) : Option (α × KnowledgeBase) :=
  (kb.importAll? documents).map fun (ticket, kb) =>
    let (answer, kb) := run kb
    (answer, kb.release ticket)

end KnowledgeBase

end GraphConformance
