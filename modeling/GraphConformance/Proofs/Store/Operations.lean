import GraphConformance.Proofs.Store.Queries
import Mathlib.Data.List.Nodup

/-!
# Stores as lists of triples

A store keeps its triples twice, in a list and in an index by subject. Whatever is done to it, it
behaves as the list alone: `Operation.onList` says what each operation does to a list of triples and
what it answers, and `Store.Lists` says that every query answers what a scan of a list gives.

One operation does to a store what it does to its list (`Operation.apply_eq`), so a history of
operations does too (`runAll_eq`), and the queries of a store are scans (`lists_triples`). Together
they tie all that a store answers, after any history, to the list of that history
(`lists_runAll`).
-/

set_option autoImplicit false

namespace GraphConformance.Store

open Vocabulary

/-! ## Operations on stores and on lists -/

/-- An operation that changes a store. -/
inductive Operation where
  | add (t : Triple)
  /-- Add the triples of a list in order. -/
  | addAll (ts : List Triple)
  | remove (t : Triple)
  /-- Add the triples of another store. -/
  | merge (other : Store)
  /-- Begin anew with the triples of a list. -/
  | collect (ts : List Triple)

namespace Operation

/-- What the operation answers, if it answers, and the store after it. -/
def apply (s : Store) : Operation → Option Bool × Store
  | add t => (some (s.add t).1, (s.add t).2)
  | addAll ts => (none, s.insertAll ts)
  | remove t => (some (s.remove t).1, (s.remove t).2)
  | merge other => (none, s.merge other)
  | collect ts => (none, ofList ts)

/-- A list with a triple at its end, unless the triple is in it. -/
def withTriple (ts : List Triple) (t : Triple) : List Triple :=
  if t ∈ ts then ts else ts ++ [t]

/-- What the operation answers and does on a list of triples. -/
def onList (ts : List Triple) : Operation → Option Bool × List Triple
  | add t => (some (decide (t ∉ ts)), withTriple ts t)
  | addAll us => (none, us.foldl withTriple ts)
  | remove t => (some (decide (t ∈ ts)), ts.filter (· ≠ t))
  | merge other => (none, other.triples.foldl withTriple ts)
  | collect us => (none, us.foldl withTriple [])

end Operation

/-- The answers of operations one after another, and the store after them. -/
def runAll (s : Store) : List Operation → List (Option Bool) × Store
  | [] => ([], s)
  | op :: ops =>
    let (answer, s) := op.apply s
    let (answers, s) := s.runAll ops
    (answer :: answers, s)

/-- The answers of operations one after another on a list of triples, and the list after them. -/
def runAllOnList (ts : List Triple) : List Operation → List (Option Bool) × List Triple
  | [] => ([], ts)
  | op :: ops =>
    let (answer, ts) := op.onList ts
    let (answers, ts) := runAllOnList ts ops
    (answer :: answers, ts)

/-- All that the store answers is what a scan of the list gives. -/
structure Lists (s : Store) (ts : List Triple) : Prop where
  triples : s.triples = ts
  nodup : ts.Nodup
  size : s.size = ts.length
  isEmpty : s.isEmpty = ts.isEmpty
  contains : ∀ t, s.contains t = decide (t ∈ ts)
  outgoing : ∀ x, s.outgoing x = (ts.filter (·.subject = x)).map Triple.edge
  objects : ∀ x p, s.objects x p =
    (ts.filter fun t => t.subject = x ∧ t.predicate = .iri p).map Triple.object
  object? : ∀ x p, s.object? x p =
    (ts.find? fun t => t.subject = x ∧ t.predicate = .iri p).map Triple.object
  subjects : ∀ p y, s.subjects p y =
    (ts.filter fun t => t.predicate = .iri p ∧ t.object = y).map Triple.subject
  types : ∀ x, s.types x =
    (ts.filter fun t => t.subject = x ∧ t.predicate = .iri Rdf.type).map Triple.object
  mentions : ∀ x, s.mentions x = ts.any fun t => t.subject = x ∨ t.predicate = x ∨ t.object = x
  /-- The index has the edges of each subject in order, and nothing for what is no subject. -/
  index : ∀ x, s.index.get? x =
    if x ∈ ts.map Triple.subject then some ((ts.filter (·.subject = x)).map Triple.edge) else none

/-! ## Histories -/

/-- An operation answers and does on a store what it answers and does on the list of its triples. -/
theorem Operation.apply_eq (s : Store) (op : Operation) :
    ((op.apply s).1, (op.apply s).2.triples) = op.onList s.triples := by
  cases op with
  | add t =>
    simp only [apply, onList, withTriple, Store.add]
    by_cases h : t ∈ s.triples
    · simp [h]
    · simp [h]
  | addAll ts => exact congrArg (none, ·) (s.triples_insertAll ts)
  | remove t =>
    have herase : (s.remove t).2.triples = s.triples.filter (· ≠ t) := by
      rw [show (s.remove t).2.triples = s.triples.erase t from s.triples_erase t,
        s.nodup.erase_eq_filter]
      apply List.filter_congr
      intro u _
      by_cases hu : u = t
      · simp [hu]
      · simp [hu]
    simp only [apply, onList, herase]
    by_cases h : t ∈ s.triples
    · simp [Store.remove, h]
    · simp [Store.remove, h]
  | merge other => exact congrArg (none, ·) (s.triples_merge other)
  | collect ts => exact congrArg (none, ·) (empty.triples_insertAll ts)

theorem runAll_eq (s : Store) (ops : List Operation) :
    ((s.runAll ops).1, (s.runAll ops).2.triples) = runAllOnList s.triples ops := by
  induction ops generalizing s with
  | nil => rfl
  | cons op ops ih =>
    have hrest := ih (op.apply s).2
    simp only [runAll, runAllOnList, ← Operation.apply_eq s op, ← hrest]

/-! ## Queries -/

/-- The edges of a subject that pass a test are the triples of the subject whose edges pass it. -/
theorem filter_edgesFrom (ts : List Triple) (x : Term) (test : Edge → Bool) :
    (edgesFrom ts x).filter test =
      (ts.filter fun t => t.subject = x && test t.edge).map Triple.edge := by
  rw [edgesFrom, List.filter_map, List.filter_filter]
  congr 2
  funext t
  exact Bool.and_comm _ _

theorem map_snd_edge (ts : List Triple) :
    (ts.map Triple.edge).map Prod.snd = ts.map Triple.object := by
  rw [List.map_map]
  rfl

theorem objects_eq_filter (s : Store) (x : Term) (p : Iri) :
    s.objects x p =
      (s.triples.filter fun t => t.subject = x ∧ t.predicate = .iri p).map Triple.object := by
  rw [objects, outgoing_eq_edgesFrom, filter_edgesFrom, map_snd_edge]
  simp only [Bool.decide_and]
  rfl

/-- The first object is the first one of all objects. -/
theorem object?_eq_head? (s : Store) (x : Term) (p : Iri) :
    s.object? x p = (s.objects x p).head? := by
  rw [object?, objects, List.head?_map, List.head?_filter]

/-- Every query of a store is a scan of its triples. -/
theorem lists_triples (s : Store) : s.Lists s.triples where
  triples := rfl
  nodup := s.nodup
  size := rfl
  isEmpty := rfl
  contains _ := rfl
  outgoing := s.outgoing_eq_edgesFrom
  objects := s.objects_eq_filter
  object? x p := by rw [object?_eq_head?, objects_eq_filter, List.head?_map, List.head?_filter]
  subjects p y := by simp [subjects]
  types x := s.objects_eq_filter x Rdf.type
  mentions x := by
    rw [Bool.eq_iff_iff, mentions_iff]
    simp
  index x := by
    rw [s.index_get?]
    by_cases hx : x ∈ s.triples.map Triple.subject
    · obtain ⟨t, ht, rfl⟩ := List.mem_map.mp hx
      have hedge : t.edge ∈ edgesFrom s.triples t.subject := mem_edgesFrom.mpr ht
      have hne : edgesFrom s.triples t.subject ≠ [] := List.ne_nil_of_mem hedge
      obtain ⟨e, es, hedges⟩ := List.exists_cons_of_ne_nil hne
      rw [if_pos hx, hedges, indexEntry, ← hedges, edgesFrom]
    · have hnone : edgesFrom s.triples x = [] := by
        rw [List.eq_nil_iff_forall_not_mem]
        intro e he
        exact hx (List.mem_map.mpr ⟨_, mem_edgesFrom.mp he, rfl⟩)
      rw [if_neg hx, hnone, indexEntry]

/-- After any history from the empty store, the answers of the operations and all that the store
answers are those of a list without repetition. -/
theorem lists_runAll (ops : List Operation) :
    (empty.runAll ops).1 = (runAllOnList [] ops).1 ∧
      (empty.runAll ops).2.Lists (runAllOnList [] ops).2 := by
  obtain ⟨hanswers, htriples⟩ := Prod.mk.inj (runAll_eq empty ops)
  rw [triples_empty] at hanswers htriples
  refine ⟨hanswers, ?_⟩
  rw [← htriples]
  exact lists_triples _

/-- A triple that was removed comes back at the end, and the index forgets a subject with its last
triple. -/
example :
    let first : Triple := ⟨.iri ⟨"s"⟩, .iri ⟨"p"⟩, .iri ⟨"o"⟩⟩
    let second : Triple := ⟨.iri ⟨"s"⟩, .iri ⟨"q"⟩, .iri ⟨"o"⟩⟩
    (empty.runAll [.collect [first, second, first], .remove first, .remove first, .add first]).1 =
        [none, some true, some false, some true] ∧
      (empty.runAll [.collect [first, second], .remove first, .add first]).2.triples =
        [second, first] ∧
      (empty.runAll [.add first, .remove first]).2.index.get? first.subject = none := by
  decide

end GraphConformance.Store
