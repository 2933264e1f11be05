import GraphConformance.Store.Basic

/-!
# Lists in a store

A list is a chain of cells: each cell has an item under `rdf:first` and the next cell under
`rdf:rest`, and the chain ends at `rdf:nil`. `Store.listItems` follows the first such edges from a
head. It stops at `rdf:nil`, at a node that lacks an item or a successor, and at a node it has
already passed, so it ends on every store: the triples that leave nodes not yet passed decrease.
-/

set_option autoImplicit false

namespace GraphConformance.Store

open Vocabulary

/-- How many triples leave nodes outside a list. -/
def remaining (s : Store) (passed : List Term) : Nat :=
  s.triples.countP (·.subject ∉ passed)

theorem remaining_lt {s : Store} {passed : List Term} {x : Term} {e : Edge}
    (hx : x ∉ passed) (he : e ∈ s.outgoing x) : s.remaining (x :: passed) < s.remaining passed := by
  rw [outgoing_eq_edgesFrom, mem_edgesFrom] at he
  unfold remaining
  generalize s.triples = ts at he
  induction ts with
  | nil => simp at he
  | cons t ts ih =>
    have hle : ts.countP (·.subject ∉ x :: passed) ≤ ts.countP (·.subject ∉ passed) := by
      apply List.countP_mono_left
      intro u _ hu
      simp only [List.mem_cons, not_or, decide_eq_true_eq] at hu ⊢
      exact hu.2
    rcases List.mem_cons.mp he with rfl | he
    · simp only [List.countP_cons]
      have h1 : (decide (x ∉ x :: passed)) = false := by simp
      have h2 : (decide (x ∉ passed)) = true := by simpa using hx
      simp only [h1, h2]
      simp only [Bool.false_eq_true, if_false, if_true]
      omega
    · have := ih he
      simp only [List.countP_cons]
      have hstep : (if decide (t.subject ∉ x :: passed) = true then 1 else 0)
          ≤ (if decide (t.subject ∉ passed) = true then 1 else 0) := by
        by_cases hp : t.subject ∈ passed
        · simp [hp]
        · simp only [decide_eq_true_eq, hp, not_false_eq_true, if_true]
          split <;> omega
      omega

theorem exists_edge_of_object? {s : Store} {x o : Term} {p : Iri} (h : s.object? x p = some o) :
    (Term.iri p, o) ∈ s.outgoing x := by
  unfold object? at h
  rw [Option.map_eq_some_iff] at h
  obtain ⟨⟨q, o'⟩, hf, rfl⟩ := h
  have hm := List.mem_of_find?_eq_some hf
  have hq := List.find?_some hf
  simp only [decide_eq_true_eq] at hq
  rw [← hq]
  exact hm

/-- The items of the list from `cell` on, up to a node in `passed`. -/
def listFrom (s : Store) (passed : List Term) (cell : Term) : List Term :=
  if h : cell = .iri Rdf.nil ∨ cell ∈ passed then []
  else
    match hf : s.object? cell Rdf.first with
    | none => []
    | some item =>
      match s.object? cell Rdf.rest with
      | none => [item]
      | some next =>
        have := remaining_lt (fun hm => h (Or.inr hm)) (exists_edge_of_object? hf)
        item :: listFrom s (cell :: passed) next
termination_by s.remaining passed

/-- The items of the list at `head`. -/
def listItems (s : Store) (head : Term) : List Term := s.listFrom [] head

end GraphConformance.Store
