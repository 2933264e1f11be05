import GraphConformance.Store.Basic

/-!
# Queries as membership of triples

Each query of a store is a scan of its triples. The lemmas here say for every query which triples it
looks for; nothing below them unfolds a query again.
-/

set_option autoImplicit false

namespace GraphConformance.Store

open Vocabulary

variable {s : Store} {x y : Term} {p : Iri}

theorem mem_merge {other : Store} {t : Triple} :
    t ∈ (s.merge other).triples ↔ t ∈ s.triples ∨ t ∈ other.triples := by
  rw [triples_merge, Distinct.mem_union]

/-- Documents merged in order add their triples in order, each one once. -/
theorem triples_foldl_merge (documents : List Store) (s : Store) :
    (documents.foldl merge s).triples =
      Distinct.union s.triples (documents.flatMap triples) := by
  induction documents generalizing s with
  | nil => rfl
  | cons document documents ih =>
    rw [List.foldl_cons, ih, triples_merge, List.flatMap_cons]
    exact (List.foldl_append ..).symm

theorem mem_foldl_merge {documents : List Store} {t : Triple} :
    t ∈ (documents.foldl merge s).triples ↔
      t ∈ s.triples ∨ ∃ document ∈ documents, t ∈ document.triples := by
  rw [triples_foldl_merge, Distinct.mem_union, List.mem_flatMap]

theorem mem_outgoing {e : Edge} : e ∈ s.outgoing x ↔ ⟨x, e.1, e.2⟩ ∈ s.triples := by
  rw [outgoing_eq_edgesFrom, mem_edgesFrom]

theorem mem_objects : y ∈ s.objects x p ↔ ⟨x, .iri p, y⟩ ∈ s.triples := by
  rw [objects, List.mem_map]
  constructor
  · rintro ⟨⟨q, o⟩, he, rfl⟩
    rw [List.mem_filter, mem_outgoing, decide_eq_true_eq] at he
    obtain ⟨he, rfl⟩ := he
    exact he
  · intro h
    exact ⟨(.iri p, y), by simpa [mem_outgoing] using h, rfl⟩

theorem object?_eq_none_iff : s.object? x p = none ↔ ∀ v, ⟨x, .iri p, v⟩ ∉ s.triples := by
  rw [object?, Option.map_eq_none_iff, List.find?_eq_none]
  constructor
  · intro h v hv
    exact h (.iri p, v) (mem_outgoing.mpr hv) (by simp)
  · rintro h ⟨q, v⟩ hv hq
    rw [decide_eq_true_eq] at hq
    obtain rfl : q = .iri p := hq
    exact h v (mem_outgoing.mp hv)

theorem mem_subjects : x ∈ s.subjects p y ↔ ⟨x, .iri p, y⟩ ∈ s.triples := by
  rw [subjects, List.mem_map]
  constructor
  · rintro ⟨t, ht, rfl⟩
    rw [List.mem_filter, Bool.and_eq_true, decide_eq_true_eq, decide_eq_true_eq] at ht
    obtain ⟨ht, hp, hy⟩ := ht
    rw [← hp, ← hy]
    exact ht
  · intro h
    exact ⟨⟨x, .iri p, y⟩, by simpa using h, rfl⟩

theorem mem_types : y ∈ s.types x ↔ ⟨x, .iri Rdf.type, y⟩ ∈ s.triples :=
  mem_objects

theorem mentions_iff : s.mentions x = true ↔
    ∃ t ∈ s.triples, t.subject = x ∨ t.predicate = x ∨ t.object = x := by
  have hindex : s.index.contains x = true ↔ ∃ e, e ∈ edgesFrom s.triples x := by
    rw [Table.contains, s.index_get?]
    cases edgesFrom s.triples x with
    | nil => simp [indexEntry]
    | cons e es => simp [indexEntry]
  rw [mentions, Bool.or_eq_true, hindex, List.any_eq_true]
  constructor
  · rintro (⟨e, he⟩ | ⟨t, ht, hx⟩)
    · exact ⟨_, mem_edgesFrom.mp he, Or.inl rfl⟩
    · rw [Bool.or_eq_true, decide_eq_true_eq, decide_eq_true_eq] at hx
      exact ⟨t, ht, Or.inr hx.symm⟩
  · rintro ⟨t, ht, rfl | hx⟩
    · exact Or.inl ⟨t.edge, mem_edgesFrom.mpr ht⟩
    · refine Or.inr ⟨t, ht, ?_⟩
      rw [Bool.or_eq_true, decide_eq_true_eq, decide_eq_true_eq]
      exact hx.symm

end GraphConformance.Store
