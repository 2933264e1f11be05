import GraphConformance.Conformance.Pass
import GraphConformance.Proofs.Knowledge.Histories

/-!
# Passes one after another

A pass imports its documents, asks, and releases its ticket however it ends. Seen from outside it is
two events of a history (`KnowledgeBase.Stands.conform?`), so a sequence of passes is a history too,
and what holds after every history of imports and releases holds after each pass. No pass sees that
another one came before it: the answers are those of the passes taken one by one, each on a
knowledge base that was never used (`KnowledgeBase.conformEach?_independent`).
-/

set_option autoImplicit false

namespace GraphConformance.KnowledgeBase

open Conformance

/-- What a pass compares, and how. -/
structure Request where
  individual : Document
  template : Document
  options : Options

/-- Passes one after another, each on the knowledge base that the one before it leaves: for each
pass its answer and what it leaves. Nothing if some pass is refused. -/
def conformEach? (kb : KnowledgeBase) :
    List Request → Option (List (Except Failure Accepted × KnowledgeBase))
  | [] => some []
  | request :: rest =>
    (kb.conform? request.individual request.template request.options).bind fun (answer, kb) =>
      (kb.conformEach? rest).map ((answer, kb) :: ·)

variable {Client : Type} {kb left : KnowledgeBase} {ontology : Store} {maxDepth : Nat}
  {events : List (Event Client)}

theorem conformEach?_cons {request : Request} {answer : Except Failure Accepted}
    (h : kb.conform? request.individual request.template request.options = some (answer, left))
    (rest : List Request) :
    kb.conformEach? (request :: rest) = (left.conformEach? rest).map ((answer, left) :: ·) := by
  rw [conformEach?, h]
  rfl

namespace Stands

/-- Asking with documents imported is never refused while no import is active. What is asked sees
the ontology and these documents, and the import is over afterwards. -/
theorem withImported? {α : Type} (client : Client) (h : kb.Stands ontology maxDepth events)
    (hidle : kb.active = none) (documents : List Store) (ask : KnowledgeBase → α) :
    ∃ during left, kb.withImported? documents (fun kb => (ask kb, kb)) = some (ask during, left) ∧
      during.knowledge = ⟨documents.foldl Store.merge ontology, maxDepth⟩ ∧
      left.active = none ∧
      left.Stands ontology maxDepth (events ++
        [.imported client documents kb.nextTicket, .released client kb.nextTicket]) := by
  obtain ⟨during, himport⟩ : ∃ during, kb.importAll? documents = some (kb.nextTicket, during) :=
    ⟨_, importAll?_eq_some_iff.mpr ⟨hidle, rfl, rfl⟩⟩
  have hstep : kb.Step (.imported client documents kb.nextTicket) during := .imported client himport
  obtain ⟨hactive, hknowledge⟩ := h.knowledge_of_step hstep
  refine ⟨during, during.release kb.nextTicket, ?_, hknowledge, ?_, ?_⟩
  · rw [KnowledgeBase.withImported?, himport]
    rfl
  · rw [release_of_active hactive]
  · exact h.runs (.cons hstep (.cons (.released client _) (.nil _)))

/-- A pass answers from the ontology and its two documents, whatever came before. -/
theorem conform? (client : Client) (h : kb.Stands ontology maxDepth events)
    (hidle : kb.active = none) (individual template : Document) (options : Options) :
    ∃ left, kb.conform? individual template options =
        some (conform ontology maxDepth individual template options, left) ∧
      left.active = none ∧
      left.Stands ontology maxDepth (events ++
        [.imported client [individual.store, template.store] kb.nextTicket,
          .released client kb.nextTicket]) := by
  obtain ⟨during, left, hanswer, hknowledge, hleft⟩ :=
    h.withImported? client hidle [individual.store, template.store]
      fun kb => Pass.checked ⟨kb.knowledge, individual, template, options⟩
  refine ⟨left, ?_, hleft⟩
  rw [KnowledgeBase.conform?, hanswer, hknowledge]
  rfl

/-- So does each of several passes, after every history that left no import active. -/
theorem conformEach? (client : Client) (h : kb.Stands ontology maxDepth events)
    (hidle : kb.active = none) (requests : List Request) :
    ∃ results, kb.conformEach? requests = some results ∧
      List.Forall₂ (fun request result =>
        result.1 = conform ontology maxDepth request.individual request.template request.options ∧
          result.2.active = none ∧ result.2.view = ontology) requests results := by
  induction requests generalizing kb events with
  | nil => exact ⟨[], rfl, .nil⟩
  | cons request rest ih =>
    obtain ⟨left, hpass, hleft, hstands⟩ :=
      h.conform? client hidle request.individual request.template request.options
    obtain ⟨results, hrest, hresults⟩ := ih hstands hleft
    exact ⟨_, by rw [conformEach?_cons hpass, hrest, Option.map_some],
      .cons ⟨rfl, hleft, hstands.view_of_idle hleft⟩ hresults⟩

end Stands

/-- Passes one after another are never refused. Each answers as on the unused knowledge base, and
leaves the ontology alone and no import. -/
theorem conformEach?_independent (ontology : Store) (maxDepth : Nat) (requests : List Request) :
    ∃ results, (ofOntology ontology maxDepth).conformEach? requests = some results ∧
      List.Forall₂ (fun request result =>
        ((ofOntology ontology maxDepth).conform? request.individual request.template
          request.options).map Prod.fst = some result.1 ∧
        result.2.active = none ∧ result.2.view = ontology) requests results := by
  obtain ⟨results, hresults, heach⟩ := (Stands.start ontology maxDepth).conformEach? () rfl requests
  refine ⟨results, hresults, heach.imp ?_⟩
  rintro request result ⟨hanswer, hleft⟩
  rw [conform?_ofOntology, hanswer]
  exact ⟨rfl, hleft⟩

end GraphConformance.KnowledgeBase
