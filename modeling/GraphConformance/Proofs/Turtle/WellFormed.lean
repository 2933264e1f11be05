import GraphConformance.Proofs.Turtle.Nodes

/-!
# What has been read is well formed

In a well-formed triple the subject is no literal and the predicate is an IRI. The productions of
the grammar look at the subject and at the predicate in other places than those that record triples,
and a triple is recorded while its statement is still being read.

Every step of a reading keeps the store well formed (`Course.Step.isWellFormed`): a triple is a step
with what was looked at before, and the triples of a collection leave its cells by two fixed
predicates. So the store is well formed after each document that a reader is given, be it read to
its end or up to an error (`isWellFormed_session`).
-/

set_option autoImplicit false

namespace GraphConformance

open Text Vocabulary

/-- The subject is no literal, and the predicate is an IRI. -/
structure Triple.IsWellFormed (t : Triple) : Prop where
  subject : ∀ l, t.subject ≠ .literal l
  predicate : ∃ i, t.predicate = .iri i

namespace Store

/-- All triples are well formed. -/
def IsWellFormed (s : Store) : Prop := ∀ t ∈ s.triples, t.IsWellFormed

theorem isWellFormed_empty : (∅ : Store).IsWellFormed := fun _ ht => nomatch ht

theorem IsWellFormed.insert {s : Store} {t : Triple} (h : s.IsWellFormed) (ht : t.IsWellFormed) :
    (s.insert t).IsWellFormed := by
  intro u hu
  rw [triples_insert, Distinct.mem_insertLast] at hu
  rcases hu with hu | rfl
  · exact h u hu
  · exact ht

end Store

namespace Turtle

namespace State

variable {st : State}

/-- The triples of a list leave blank nodes. -/
theorem isWellFormed_addList (h : st.store.IsWellFormed) (items : List Term) :
    (st.addList items).1.store.IsWellFormed := by
  intro t ht
  rcases mem_triples_addList ht with ht | ⟨⟨b, -, hsubject⟩, hpredicate, -⟩
  · exact h t ht
  · refine ⟨?_, Term.isIri_iff.mp hpredicate⟩
    rw [hsubject]
    exact fun _ => nofun

theorem store_labelledBlank (label : String) : (st.labelledBlank label).1.store = st.store := by
  rw [labelledBlank]
  cases st.labels.get? label <;> rfl

theorem store_declareAll (names : List (String × String)) :
    (st.declareAll names).store = st.store := by
  induction names generalizing st with
  | nil => rfl
  | cons name names ih => exact ih

end State

namespace Course

variable {c c' : Course}

/-- Every step of a reading keeps the store well formed. -/
theorem Step.isWellFormed (hstep : c.Step c') (h : c.state.store.IsWellFormed) :
    c'.state.store.IsWellFormed := by
  cases hstep with
  | reference text => exact h
  | label name =>
    change (c.state.labelledBlank name).1.store.IsWellFormed
    rwa [State.store_labelledBlank]
  | bracket => exact h
  | collection => exact State.isWellFormed_addList h _
  | triple _ hindividual hpredicate _ =>
    refine h.insert ⟨?_, Term.isIri_iff.mp hpredicate⟩
    rintro l rfl
    cases hindividual
  | declare label space => exact h
  | rebase base => exact h

theorem Leads.isWellFormed (hrun : c.Leads c') (h : c.state.store.IsWellFormed) :
    c'.state.store.IsWellFormed := by
  induction hrun with
  | refl => exact h
  | tail _ hstep ih => exact hstep.isWellFormed ih

end Course

namespace State

variable {st : State}

/-- A document leaves a well-formed store, whatever comes of it. -/
theorem isWellFormed_readDocument (st : State) (h : st.store.IsWellFormed) (text : String) :
    (st.readDocument text).1.store.IsWellFormed :=
  (leads_readDocument ⟨st, []⟩ text).isWellFormed h

/-- What comes of the documents that one reader is given in order: for each of them the state that
it leaves, and whether it was read to its end. Before each of them the count of blank nodes goes on
by a gap, for nodes that are made elsewhere. -/
def session (st : State) : List (Nat × String) → List (State × Except ParseError Unit)
  | [] => []
  | (gap, text) :: rest =>
    let outcome := { st with nextBlank := st.nextBlank + gap }.readDocument text
    outcome :: outcome.1.session rest

theorem isWellFormed_of_mem_session {documents : List (Nat × String)}
    {outcome : State × Except ParseError Unit} (h : st.store.IsWellFormed)
    (houtcome : outcome ∈ st.session documents) : outcome.1.store.IsWellFormed := by
  induction documents generalizing st with
  | nil => cases houtcome
  | cons document documents ih =>
    have hread := isWellFormed_readDocument { st with nextBlank := st.nextBlank + document.1 } h
      document.2
    rcases List.mem_cons.mp houtcome with rfl | houtcome
    · exact hread
    · exact ih hread houtcome

end State

/-- What has been read is well formed. With any base and any declared prefixes, and from whichever
number on blank nodes are numbered, a reader that is given documents in order has after each of
them, be it read to its end or only up to an error, a store in whose triples no subject is a literal
and every predicate is an IRI. -/
theorem isWellFormed_session (n : Nat) (base : Option Iri) (names : List (String × String))
    (documents : List (Nat × String)) :
    ∀ outcome ∈ ((State.initial n base).declareAll names).session documents,
      outcome.1.store.IsWellFormed := by
  intro outcome houtcome
  have hstart : ((State.initial n base).declareAll names).store.IsWellFormed := by
    rw [State.store_declareAll]
    exact Store.isWellFormed_empty
  exact State.isWellFormed_of_mem_session hstart houtcome

/-! A property list without end, in which another node was read as an object. -/

namespace OpenBracket

def text : String := "[a[]"

theorem readPredicates_inside (st : State) (x : Term) : readPredicates st x ['a', '[', ']'] =
    ⟨st.freshBlank.1.addTriple x (.iri Rdf.type) st.freshBlank.2, .ok ((), ⟨[], by decide⟩)⟩ := by
  have hnode : readTerm st ['[', ']'] =
      ⟨st.freshBlank.1, .ok (st.freshBlank.2, ⟨[], by decide⟩)⟩ := by
    rw [readTerm]
    rfl
  have hobjects : readObjects st x (.iri Rdf.type) ['[', ']'] =
      ⟨st.freshBlank.1.addTriple x (.iri Rdf.type) st.freshBlank.2,
        .ok ((), ⟨[], by decide⟩)⟩ := by
    rw [readObjects, hnode]
    rfl
  have hpredicate : readPredicate st ['a', '[', ']'] =
      ⟨st, .ok (.iri Rdf.type, ⟨['[', ']'], by decide⟩)⟩ := by
    rw [readPredicate]
    rfl
  rw [readPredicates, hpredicate]
  dsimp only
  rw [show readObjects st x (.iri Rdf.type) (skip ['[', ']']) = _ from hobjects]
  rfl

/-- The state in which the list is left open. -/
def left (st : State) : State :=
  st.freshBlank.1.freshBlank.1.addTriple st.freshBlank.2 (.iri Rdf.type)
    st.freshBlank.1.freshBlank.2

theorem readDocument_text (st : State) :
    st.readDocument text = (left st, .error .unexpectedEnd) := by
  have hterm : readTerm st ['[', 'a', '[', ']'] =
      ⟨left st, .error (.before [] .closingBracket)⟩ := by
    rw [readTerm, show mark? '[' ['[', 'a', '[', ']'] = some (.tail '[' ['a', '[', ']']) from rfl]
    dsimp only
    rw [show mark? ']' (skip (Shorter.tail '[' ['a', '[', ']']).1) = none from rfl]
    dsimp only
    rw [show readPredicates st.freshBlank.1 st.freshBlank.2
      (skip (Shorter.tail '[' ['a', '[', ']']).1) = _ from readPredicates_inside _ _]
    rfl
  have hentry : readEntry st text.toList = ⟨left st, .error (.before [] .closingBracket)⟩ := by
    rw [readEntry, if_neg (by decide), if_neg (by decide), readStatement,
      show readTerm st text.toList = _ from hterm]
  rw [State.readDocument, readEntries_of_halt (by decide) (by decide) hentry]
  rfl

/-- The triple of the node inside stays when the list is not closed, and is well formed. -/
theorem isWellFormed_session_text :
    (left (State.initial 0 none), .error .unexpectedEnd) ∈
        ((State.initial 0 none).declareAll []).session [(0, text)] ∧
      (left (State.initial 0 none)).store.triples =
        [⟨.blank ⟨0, none⟩, .iri Rdf.type, .blank ⟨1, none⟩⟩] ∧
      (left (State.initial 0 none)).store.IsWellFormed := by
  have hmem : (left (State.initial 0 none), .error .unexpectedEnd) ∈
      ((State.initial 0 none).declareAll []).session [(0, text)] := by
    rw [← readDocument_text]
    exact List.mem_cons_self
  exact ⟨hmem, rfl, isWellFormed_session 0 none [] [(0, text)] _ hmem⟩

end OpenBracket

end Turtle

end GraphConformance
