import GraphConformance.Proofs.Expression.Reading
import GraphConformance.Proofs.Store.Queries
import Mathlib.Data.List.Nodup

/-!
# Chains of cells

A list of items is kept in a store as a chain of cells (`Store.Chain`). A cell is read by the first
triples that leave it, so more triples leave a chain as it is (`Chain.insert`), and a chain whose
cells differ is read back item by item (`Chain.listItems_eq`).

On any other store a list is followed along a walk (`Store.Walk`), which ends at `rdf:nil`, at a
node that lacks an item or a successor, and at a node that it has passed. No node is looked at
twice, and every node but the last has an edge (`exists_walk_listItems`).
-/

set_option autoImplicit false

namespace GraphConformance.Store

open Vocabulary

variable {s : Store} {x y : Term} {p : Iri}

/-! ## The first object -/

theorem outgoing_insert (t : Triple) : (s.insert t).outgoing x =
    if x = t.subject ∧ t ∉ s.triples then s.outgoing x ++ [t.edge] else s.outgoing x := by
  rw [outgoing_eq_edgesFrom, outgoing_eq_edgesFrom, triples_insert, Distinct.insertLast]
  by_cases ht : t ∈ s.triples
  · simp [ht]
  · simp [ht, edgesFrom_append]

/-- The first object stays the first one when triples are added. -/
theorem object?_insert (h : s.object? x p = some y) (t : Triple) :
    (s.insert t).object? x p = some y := by
  rw [object?] at h ⊢
  rw [outgoing_insert]
  split
  · rw [List.find?_append, Option.map_or, h, Option.some_or]
  · exact h

/-- The first triple with a subject and a predicate gives the object. -/
theorem object?_insert_self (h : s.object? x p = none) (y : Term) :
    (s.insert ⟨x, .iri p, y⟩).object? x p = some y := by
  have hnew : (⟨x, .iri p, y⟩ : Triple) ∉ s.triples := object?_eq_none_iff.mp h y
  rw [object?, outgoing_insert, if_pos ⟨rfl, hnew⟩, List.find?_append, Option.map_or]
  rw [object?] at h
  simp [h, Triple.edge]

/-! ## Chains -/

/-- From the head on, the cells hold the items and lead to `rdf:nil`. -/
inductive Chain (s : Store) : Term → List Term → List Term → Prop
  | nil : Chain s (.iri Rdf.nil) [] []
  | cons {cell item next : Term} {cells items : List Term} (hcell : cell ≠ .iri Rdf.nil)
      (hfirst : s.object? cell Rdf.first = some item)
      (hrest : s.object? cell Rdf.rest = some next) (h : Chain s next cells items) :
      Chain s cell (cell :: cells) (item :: items)

variable {head : Term} {cells items passed visited : List Term}

theorem Chain.insert (h : s.Chain head cells items) (t : Triple) :
    (s.insert t).Chain head cells items := by
  induction h with
  | nil => exact .nil
  | cons hcell hfirst hrest _ ih =>
    exact .cons hcell (object?_insert hfirst t) (object?_insert hrest t) ih

theorem Chain.listFrom_eq (h : s.Chain head cells items) (hnodup : cells.Nodup)
    (hpassed : ∀ cell ∈ cells, cell ∉ passed) : s.listFrom passed head = items := by
  induction h generalizing passed with
  | nil => rw [listFrom, dif_pos (Or.inl rfl)]
  | @cons cell item next cells items hcell hfirst hrest _ ih =>
    obtain ⟨hnew, hnodup⟩ := List.nodup_cons.mp hnodup
    have hgo : ¬(cell = .iri Rdf.nil ∨ cell ∈ passed) :=
      not_or.mpr ⟨hcell, hpassed cell List.mem_cons_self⟩
    rw [listFrom_of_not_end hgo, hfirst, Option.elim_some, hrest, Option.elim_some]
    rw [ih hnodup]
    intro other hother
    rw [List.mem_cons, not_or]
    refine ⟨?_, hpassed other (List.mem_cons_of_mem _ hother)⟩
    rintro rfl
    exact hnew hother

/-- The items of a chain are read back. -/
theorem Chain.listItems_eq (h : s.Chain head cells items) (hnodup : cells.Nodup) :
    s.listItems head = items :=
  h.listFrom_eq hnodup fun _ _ => List.not_mem_nil

/-! ## Walks -/

/-- How a list is followed from a node on, past the nodes in `passed`: the nodes that are looked at,
and the items that are found. -/
inductive Walk (s : Store) : List Term → Term → List Term → List Term → Prop
  | nil {passed : List Term} : Walk s passed (.iri Rdf.nil) [] []
  | back {passed : List Term} {cell : Term} (hcell : cell ∈ passed) : Walk s passed cell [] []
  | noItem {passed : List Term} {cell : Term} (hcell : cell ≠ .iri Rdf.nil)
      (hnew : cell ∉ passed) (hfirst : s.object? cell Rdf.first = none) :
      Walk s passed cell [cell] []
  | noRest {passed : List Term} {cell item : Term} (hcell : cell ≠ .iri Rdf.nil)
      (hnew : cell ∉ passed) (hfirst : s.object? cell Rdf.first = some item)
      (hrest : s.object? cell Rdf.rest = none) : Walk s passed cell [cell] [item]
  | step {passed visited items : List Term} {cell item next : Term} (hcell : cell ≠ .iri Rdf.nil)
      (hnew : cell ∉ passed) (hfirst : s.object? cell Rdf.first = some item)
      (hrest : s.object? cell Rdf.rest = some next)
      (h : Walk s (cell :: passed) next visited items) :
      Walk s passed cell (cell :: visited) (item :: items)

namespace Walk

/-- No node is looked at twice, and none that has been passed. -/
theorem nodup (h : s.Walk passed head visited items) :
    visited.Nodup ∧ ∀ x ∈ visited, x ∉ passed := by
  induction h with
  | nil | back => exact ⟨List.nodup_nil, fun _ hx => nomatch hx⟩
  | noItem _ hnew | noRest _ hnew =>
    exact ⟨List.nodup_singleton _, List.forall_mem_singleton.mpr hnew⟩
  | step _ hnew _ _ _ ih =>
    obtain ⟨hnodup, hpassed⟩ := ih
    refine ⟨List.nodup_cons.mpr ⟨fun hmem => hpassed _ hmem List.mem_cons_self, hnodup⟩, ?_⟩
    exact List.forall_mem_cons.mpr
      ⟨hnew, fun x hx hmem => hpassed x hx (List.mem_cons_of_mem _ hmem)⟩

/-- Every node but the last has an edge of its own. -/
theorem length_le (h : s.Walk passed head visited items) :
    visited.length ≤ s.remaining passed + 1 := by
  induction h with
  | nil | back => exact Nat.zero_le _
  | noItem | noRest => exact Nat.le_add_left _ _
  | step _ hnew hfirst _ _ ih =>
    have hlt := remaining_lt hnew (exists_edge_of_object? hfirst)
    rw [List.length_cons]
    omega

end Walk

/-- A list is read along a walk. -/
theorem exists_walk_listFrom (s : Store) (passed : List Term) (cell : Term) :
    ∃ visited, s.Walk passed cell visited (s.listFrom passed cell) := by
  by_cases hnil : cell = .iri Rdf.nil
  · rw [listFrom, dif_pos (Or.inl hnil)]
    exact ⟨[], hnil ▸ .nil⟩
  by_cases hback : cell ∈ passed
  · rw [listFrom, dif_pos (Or.inr hback)]
    exact ⟨[], .back hback⟩
  rw [listFrom_of_not_end (not_or.mpr ⟨hnil, hback⟩)]
  cases hfirst : s.object? cell Rdf.first with
  | none => exact ⟨[cell], .noItem hnil hback hfirst⟩
  | some item =>
    rw [Option.elim_some]
    cases hrest : s.object? cell Rdf.rest with
    | none => exact ⟨[cell], .noRest hnil hback hfirst hrest⟩
    | some next =>
      have hlt := remaining_lt hback (exists_edge_of_object? hfirst)
      obtain ⟨visited, hwalk⟩ := exists_walk_listFrom s (cell :: passed) next
      exact ⟨cell :: visited, .step hnil hback hfirst hrest hwalk⟩
termination_by s.remaining passed

/-- However the edges of a store lead, a list is read along a walk that looks at no node twice, and
at no more nodes than there are triples and one. -/
theorem exists_walk_listItems (s : Store) (head : Term) :
    ∃ visited, s.Walk [] head visited (s.listItems head) ∧ visited.Nodup ∧
      visited.length ≤ s.size + 1 := by
  obtain ⟨visited, hwalk⟩ := exists_walk_listFrom s [] head
  refine ⟨visited, hwalk, hwalk.nodup.1, ?_⟩
  have hremaining : s.remaining [] = s.size := by simp [remaining, size]
  exact hremaining ▸ hwalk.length_le

end GraphConformance.Store
