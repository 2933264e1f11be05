import GraphConformance.Knowledge.Imports
import GraphConformance.Proofs.Store.Queries
import Mathlib.Data.List.Nodup
import Mathlib.Data.List.Pairwise

/-!
# Histories of imports

Any number of clients import documents into one knowledge base and release tickets: their own or
others', in time, late or twice. `KnowledgeBase.Runs` relates a knowledge base to what such a
history makes of it; an import is a step only while none is active.

One invariant carries all of it (`KnowledgeBase.Stands`): the tickets handed out are the first
numbers in order, and the view is the ontology, or the ontology with the documents of the active
import. While an import is active and its ticket is not released, no step changes anything
(`Runs.eq_of_active`), so whatever is asked in between is asked of these documents.
-/

set_option autoImplicit false

namespace GraphConformance

namespace KnowledgeBase

open Vocabulary

variable {Client : Type}

/-- What a client did: import documents, for which it got a ticket, or release a ticket. -/
inductive Event (Client : Type) where
  | imported (client : Client) (documents : List Store) (ticket : Nat)
  | released (client : Client) (ticket : Nat)

/-- The ticket that was handed out. -/
def Event.ticket? : Event Client → Option Nat
  | imported _ _ ticket => some ticket
  | released _ _ => none

/-- The tickets that were handed out, in order. -/
def tickets (events : List (Event Client)) : List Nat := events.filterMap Event.ticket?

/-- What an event makes of a knowledge base. -/
inductive Step : KnowledgeBase → Event Client → KnowledgeBase → Prop where
  -- a client whose import is refused waits; that is no event
  | imported {kb kb' : KnowledgeBase} {documents : List Store} {ticket : Nat} (client : Client)
      (h : kb.importAll? documents = some (ticket, kb')) :
      Step kb (.imported client documents ticket) kb'
  | released {kb : KnowledgeBase} (client : Client) (ticket : Nat) :
      Step kb (.released client ticket) (kb.release ticket)

/-- What a history of events makes of a knowledge base. -/
inductive Runs : KnowledgeBase → List (Event Client) → KnowledgeBase → Prop where
  | nil (kb : KnowledgeBase) : Runs kb [] kb
  | cons {kb next kb' : KnowledgeBase} {event : Event Client} {events : List (Event Client)}
      (hstep : Step kb event next) (h : Runs next events kb') : Runs kb (event :: events) kb'

variable {kb kb' : KnowledgeBase} {ontology : Store} {maxDepth ticket : Nat}
  {documents : List Store} {client : Client} {event : Event Client}
  {events before after : List (Event Client)}

/-! ## Steps and runs -/

theorem importAll?_eq_some_iff : kb.importAll? documents = some (ticket, kb') ↔
    kb.active = none ∧ ticket = kb.nextTicket ∧
      kb' = { kb with
        active := some kb.nextTicket
        nextTicket := kb.nextTicket + 1
        view := documents.foldl Store.merge kb.ontology } := by
  unfold importAll?
  split
  · rename_i active hactive
    simp [hactive]
  · rename_i hactive
    simp [hactive, eq_comm]

/-- An import happens exactly while none is active. -/
theorem exists_step_imported_iff (client : Client) (documents : List Store) :
    (∃ ticket kb', kb.Step (.imported client documents ticket) kb') ↔ kb.active = none := by
  constructor
  · rintro ⟨ticket, kb', hstep⟩
    cases hstep with
    | imported client h => exact (importAll?_eq_some_iff.mp h).1
  · intro hactive
    exact ⟨_, _, .imported client (importAll?_eq_some_iff.mpr ⟨hactive, rfl, rfl⟩)⟩

theorem release_of_active (h : kb.active = some ticket) :
    kb.release ticket = { kb with active := none, view := kb.ontology } :=
  if_pos h

theorem release_of_not_active (h : kb.active ≠ some ticket) : kb.release ticket = kb :=
  if_neg h

/-- A history can be cut anywhere. -/
theorem Runs.cut (h : kb.Runs (before ++ after) kb') :
    ∃ middle, kb.Runs before middle ∧ middle.Runs after kb' := by
  induction before generalizing kb with
  | nil => exact ⟨kb, .nil kb, h⟩
  | cons event before ih =>
    cases h with
    | cons hstep h =>
      obtain ⟨middle, hbefore, hafter⟩ := ih h
      exact ⟨middle, .cons hstep hbefore, hafter⟩

/-! ## While an import is active -/

theorem Step.eq_of_active (hactive : kb.active = some ticket) (h : kb.Step event kb')
    (hevent : ∀ client, event ≠ .released client ticket) : kb' = kb := by
  cases h with
  | imported client himport =>
    have hidle := (importAll?_eq_some_iff.mp himport).1
    rw [hactive] at hidle
    exact absurd hidle (by simp)
  | released client other =>
    apply release_of_not_active
    intro hother
    rw [hactive, Option.some.injEq] at hother
    exact hevent client (by rw [hother])

/-- Until its ticket is released, nothing changes. -/
theorem Runs.eq_of_active (hactive : kb.active = some ticket) (h : kb.Runs events kb')
    (hevents : ∀ client, .released client ticket ∉ events) : kb' = kb := by
  induction h with
  | nil => rfl
  | @cons kb next kb' event events hstep _ ih =>
    have hsame : next = kb := by
      apply hstep.eq_of_active hactive
      rintro client rfl
      exact hevents client List.mem_cons_self
    subst hsame
    apply ih hactive
    intro client hmem
    exact hevents client (List.mem_cons_of_mem _ hmem)

/-! ## The invariant -/

/-- How a knowledge base stands after a history that began with the ontology alone. -/
structure Stands (ontology : Store) (maxDepth : Nat) (events : List (Event Client))
    (kb : KnowledgeBase) : Prop where
  ontology_eq : kb.ontology = ontology
  maxDepth_eq : kb.maxDepth = maxDepth
  view_of_idle : kb.active = none → kb.view = ontology
  view_of_active : ∀ ticket, kb.active = some ticket → ∃ client documents,
    .imported client documents ticket ∈ events ∧ kb.view = documents.foldl Store.merge ontology
  tickets_eq : tickets events = List.range kb.nextTicket

namespace Stands

theorem start (ontology : Store) (maxDepth : Nat) :
    (ofOntology ontology maxDepth).Stands ontology maxDepth ([] : List (Event Client)) where
  ontology_eq := rfl
  maxDepth_eq := rfl
  view_of_idle := fun _ => rfl
  view_of_active := fun _ h => absurd h (by simp [ofOntology])
  tickets_eq := rfl

theorem step (h : kb.Stands ontology maxDepth events) (hstep : kb.Step event kb') :
    kb'.Stands ontology maxDepth (events ++ [event]) := by
  cases hstep with
  | imported client himport =>
    obtain ⟨-, rfl, rfl⟩ := importAll?_eq_some_iff.mp himport
    refine ⟨h.ontology_eq, h.maxDepth_eq, fun hidle => absurd hidle (by simp), ?_, ?_⟩
    · intro ticket hticket
      obtain rfl := Option.some.inj hticket
      refine ⟨client, _, ?_, by rw [h.ontology_eq]⟩
      exact List.mem_append_right _ (List.mem_singleton_self _)
    · -- the new ticket is the next number
      have hold := h.tickets_eq
      rw [tickets] at hold ⊢
      rw [List.filterMap_append, hold, List.range_succ]
      rfl
  | released client ticket =>
    have htickets : tickets (events ++ [.released client ticket]) = tickets events := by
      simp [tickets, Event.ticket?]
    by_cases hactive : kb.active = some ticket
    · rw [release_of_active hactive]
      exact ⟨h.ontology_eq, h.maxDepth_eq, fun _ => h.ontology_eq,
        fun _ hnone => absurd hnone (by simp), htickets.trans h.tickets_eq⟩
    · rw [release_of_not_active hactive]
      refine ⟨h.ontology_eq, h.maxDepth_eq, h.view_of_idle, ?_, htickets.trans h.tickets_eq⟩
      intro active heq
      obtain ⟨client, documents, hmem, hview⟩ := h.view_of_active active heq
      exact ⟨client, documents, List.mem_append_left _ hmem, hview⟩

theorem runs (h : kb.Stands ontology maxDepth before) (hruns : kb.Runs events kb') :
    kb'.Stands ontology maxDepth (before ++ events) := by
  induction hruns generalizing before with
  | nil => rwa [List.append_nil]
  | cons hstep _ ih =>
    rw [List.append_cons]
    exact ih (h.step hstep)

theorem nodup_tickets (h : kb.Stands ontology maxDepth events) : (tickets events).Nodup := by
  rw [h.tickets_eq]
  exact List.nodup_range

theorem lt_nextTicket (h : kb.Stands ontology maxDepth events) (hticket : ticket ∈ tickets events) :
    ticket < kb.nextTicket := by
  rw [h.tickets_eq] at hticket
  exact List.mem_range.mp hticket

end Stands

/-- A ticket is handed out by one import. -/
theorem imported_unique (h : (tickets events).Nodup) {client other : Client}
    {documents documents' : List Store} (hmem : .imported client documents ticket ∈ events)
    (hmem' : .imported other documents' ticket ∈ events) :
    other = client ∧ documents' = documents := by
  rw [tickets, List.Nodup, List.pairwise_filterMap] at h
  have hsymm : Std.Symm fun e e' : Event Client =>
      ∀ t, e.ticket? = some t → ∀ t', e'.ticket? = some t' → t ≠ t' :=
    ⟨fun _ _ hapart t ht t' ht' => (hapart t' ht' t ht).symm⟩
  by_contra hne
  have hdiffer : Event.imported client documents ticket ≠ .imported other documents' ticket := by
    intro heq
    injection heq with hclient hdocuments
    exact hne ⟨hclient.symm, hdocuments.symm⟩
  exact h.forall hmem hmem' hdiffer ticket rfl ticket rfl rfl

/-! ## Exclusive and scoped -/

/-- Imports into an ontology are exclusive and scoped, as far as a history has come. -/
structure Exclusive (ontology : Store) (maxDepth : Nat) (events : List (Event Client))
    (kb : KnowledgeBase) : Prop where
  /-- Without an active import the ontology alone is seen. -/
  view_of_idle : kb.active = none → kb.view = ontology
  /-- One import got the active ticket, and its documents are seen after the ontology. -/
  view_of_active : ∀ ticket, kb.active = some ticket → ∃ client documents,
    .imported client documents ticket ∈ events ∧
      (∀ other documents', .imported other documents' ticket ∈ events →
        other = client ∧ documents' = documents) ∧
      kb.view = documents.foldl Store.merge ontology
  /-- No ticket is handed out twice. -/
  nodup_tickets : (tickets events).Nodup
  lt_nextTicket : ∀ ticket ∈ tickets events, ticket < kb.nextTicket
  /-- An import happens exactly while none is active. -/
  enabled_iff : ∀ (client : Client) documents,
    (∃ ticket kb', kb.Step (.imported client documents ticket) kb') ↔ kb.active = none
  /-- Releasing the active ticket brings the ontology alone back. -/
  release_active : ∀ ticket, kb.active = some ticket →
    (kb.release ticket).active = none ∧ (kb.release ticket).view = ontology
  /-- Releasing any other ticket changes nothing. -/
  release_other : ∀ ticket, kb.active ≠ some ticket → kb.release ticket = kb
  /-- Before the first release of its ticket, an import is the active one, and what is known is the
  ontology and exactly its documents. -/
  knowledge_of_unreleased : ∀ before client documents ticket between,
    events = before ++ .imported client documents ticket :: between →
      (∀ other, .released other ticket ∉ between) →
        kb.active = some ticket ∧
          kb.knowledge = ⟨documents.foldl Store.merge ontology, maxDepth⟩ ∧
          kb.knowledge.store.triples =
            Distinct.union ontology.triples (documents.flatMap Store.triples)

/-- What is known right after an import. -/
theorem Stands.knowledge_of_step (h : kb.Stands ontology maxDepth events)
    (hstep : kb.Step (.imported client documents ticket) kb') :
    kb'.active = some ticket ∧
      kb'.knowledge = ⟨documents.foldl Store.merge ontology, maxDepth⟩ := by
  cases hstep with
  | imported client himport =>
    obtain ⟨-, rfl, rfl⟩ := importAll?_eq_some_iff.mp himport
    exact ⟨rfl, by rw [knowledge, h.ontology_eq, h.maxDepth_eq]⟩

theorem Runs.knowledge_of_unreleased
    (h : (ofOntology ontology maxDepth).Runs
      (before ++ .imported client documents ticket :: after) kb)
    (hafter : ∀ other, .released other ticket ∉ after) :
    kb.active = some ticket ∧ kb.knowledge = ⟨documents.foldl Store.merge ontology, maxDepth⟩ := by
  obtain ⟨middle, hbefore, hrest⟩ := h.cut
  cases hrest with
  | cons himport hrest =>
    have himported := ((Stands.start ontology maxDepth).runs hbefore).knowledge_of_step himport
    rw [hrest.eq_of_active himported.1 hafter]
    exact himported

/-- Imports are exclusive and scoped after every history of imports and releases. -/
theorem exclusive_of_runs (ontology : Store) (maxDepth : Nat) (events : List (Event Client))
    (kb : KnowledgeBase) (h : (ofOntology ontology maxDepth).Runs events kb) :
    kb.Exclusive ontology maxDepth events := by
  have hstands : kb.Stands ontology maxDepth events := (Stands.start ontology maxDepth).runs h
  exact {
    view_of_idle := hstands.view_of_idle
    view_of_active := by
      intro ticket hactive
      obtain ⟨client, documents, hmem, hview⟩ := hstands.view_of_active ticket hactive
      exact ⟨client, documents, hmem,
        fun _ _ hmem' => imported_unique hstands.nodup_tickets hmem hmem', hview⟩
    nodup_tickets := hstands.nodup_tickets
    lt_nextTicket := fun _ => hstands.lt_nextTicket
    enabled_iff := exists_step_imported_iff
    release_active := by
      intro ticket hactive
      rw [release_of_active hactive]
      exact ⟨rfl, hstands.ontology_eq⟩
    release_other := fun _ => release_of_not_active
    knowledge_of_unreleased := by
      rintro before client documents ticket between rfl hbetween
      obtain ⟨hactive, hknowledge⟩ := h.knowledge_of_unreleased hbetween
      refine ⟨hactive, hknowledge, ?_⟩
      rw [hknowledge, Store.triples_foldl_merge] }

/-! Two clients share a knowledge base. A ticket is released twice, and one that nobody holds. -/

namespace TwoClients

def documentX : Store := .ofList [⟨.iri ⟨"x"⟩, .iri Rdf.type, .iri ⟨"A"⟩⟩]

def documentY : Store := .ofList [⟨.iri ⟨"y"⟩, .iri Rdf.type, .iri ⟨"B"⟩⟩]

def documentZ : Store := .ofList [⟨.iri ⟨"z"⟩, .iri Rdf.type, .iri ⟨"B"⟩⟩]

def history : List (Event Bool) :=
  [.imported false [documentX] 0, .released true 7, .released false 0,
    .imported true [documentY, documentZ] 1, .released false 0, .released true 7]

def base : KnowledgeBase := ⟨∅, 2, some 1, 2, [documentY, documentZ].foldl Store.merge ∅⟩

theorem runs_history : (ofOntology ∅ 2).Runs history base :=
  .cons (.imported false rfl) <| .cons (.released true 7) <| .cons (.released false 0) <|
    .cons (.imported true rfl) <| .cons (.released false 0) <| .cons (.released true 7) <| .nil base

/-- Releases of other tickets do not end the second import, and what was imported first is gone. -/
theorem exclusive_history :
    (ofOntology ∅ 2).Runs history base ∧ base.active = some 1 ∧
      base.knowledge.store.triples =
        [⟨.iri ⟨"y"⟩, .iri Rdf.type, .iri ⟨"B"⟩⟩, ⟨.iri ⟨"z"⟩, .iri Rdf.type, .iri ⟨"B"⟩⟩] ∧
      tickets history = [0, 1] ∧ (tickets history).Nodup := by
  have hexclusive := exclusive_of_runs ∅ 2 history base runs_history
  obtain ⟨hactive, -, htriples⟩ := hexclusive.knowledge_of_unreleased (history.take 3) true
    [documentY, documentZ] 1 [.released false 0, .released true 7] rfl (by simp)
  refine ⟨runs_history, hactive, ?_, rfl, hexclusive.nodup_tickets⟩
  rw [htriples]
  decide

end TwoClients

end KnowledgeBase

end GraphConformance
