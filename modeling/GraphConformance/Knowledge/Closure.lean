import GraphConformance.Store.Basic

/-!
# Told closures

`Store.search` collects what can be reached from the nodes on a stack, depth first: each node is
listed when it is taken from the stack, and what it leads to is put on top, the last successor
first in turn. Only nodes that the store mentions lead further, so the search ends: the terms of the
store that are not yet listed decrease.

`Store.toldSupers` follows the told super-classes and equivalent classes of a class, and
`Store.isSubProperty` those of a property.
-/

set_option autoImplicit false

namespace GraphConformance

open Vocabulary

section Counting

variable {α : Type} [DecidableEq α]

theorem countP_not_mem_concat_le (xs seen : List α) (x : α) :
    xs.countP (· ∉ seen ++ [x]) ≤ xs.countP (· ∉ seen) := by
  apply List.countP_mono_left
  intro y _ hy
  simp only [List.mem_append, not_or, decide_eq_true_eq] at hy ⊢
  exact hy.1

theorem countP_not_mem_concat_lt {xs seen : List α} {x : α} (hx : x ∈ xs) (hn : x ∉ seen) :
    xs.countP (· ∉ seen ++ [x]) < xs.countP (· ∉ seen) := by
  induction xs with
  | nil => simp at hx
  | cons y ys ih =>
    simp only [List.countP_cons]
    rcases List.mem_cons.mp hx with rfl | hx
    · have hle := countP_not_mem_concat_le ys seen x
      have h1 : decide (x ∉ seen ++ [x]) = false := by simp
      have h2 : decide (x ∉ seen) = true := by simpa using hn
      rw [h1, h2]
      simp only [Bool.false_eq_true, if_false, if_true]
      omega
    · have hlt := ih hx
      have hstep : (if decide (y ∉ seen ++ [x]) = true then 1 else 0)
          ≤ (if decide (y ∉ seen) = true then 1 else 0) := by
        by_cases hy : y ∈ seen
        · simp [hy]
        · simp only [decide_eq_true_eq, hy, not_false_eq_true, if_true]
          split <;> omega
      omega

end Counting

namespace Store

theorem mem_terms_of_mentions {s : Store} {x : Term} (h : s.mentions x = true) : x ∈ s.terms := by
  unfold mentions at h
  unfold terms
  rw [Distinct.mem_dedup]
  simp only [List.mem_append, List.mem_map]
  rw [Bool.or_eq_true] at h
  rcases h with h | h
  · unfold Table.contains at h
    rw [s.index_get?] at h
    cases he : edgesFrom s.triples x with
    | nil => rw [he] at h; simp [indexEntry] at h
    | cons e es =>
      have hm : e ∈ edgesFrom s.triples x := by rw [he]; simp
      exact Or.inl (Or.inl ⟨_, mem_edgesFrom.mp hm, rfl⟩)
  · rw [List.any_eq_true] at h
    obtain ⟨t, ht, hx⟩ := h
    simp only [Bool.or_eq_true, decide_eq_true_eq] at hx
    rcases hx with hx | hx
    · exact Or.inr ⟨t, ht, hx⟩
    · exact Or.inl (Or.inr ⟨t, ht, hx⟩)

/-- The nodes seen, and then what can be reached from the nodes on the stack. -/
def search (s : Store) (next : Term → List Term) (stack seen : List Term) : List Term :=
  match stack with
  | [] => seen
  | x :: rest =>
    if hn : x ∈ seen then s.search next rest seen
    else if hm : s.mentions x = true then
      have := countP_not_mem_concat_lt (mem_terms_of_mentions hm) hn
      s.search next ((next x).reverse ++ rest) (seen ++ [x])
    else
      have := countP_not_mem_concat_le s.terms seen x
      s.search next rest (seen ++ [x])
termination_by (s.terms.countP (· ∉ seen), stack.length)
decreasing_by
  · exact Prod.Lex.right _ (Nat.lt_succ_self _)
  · exact Prod.Lex.left _ _ this
  · rcases Nat.lt_or_eq_of_le this with h | h
    · exact Prod.Lex.left _ _ h
    · rw [h]; exact Prod.Lex.right _ (Nat.lt_succ_self _)

/-- The named classes next to a class in the told hierarchy: above it, or equivalent to it. -/
def nextSupers (s : Store) (c : Term) : List Term :=
  (s.objects c Rdfs.subClassOf ++ s.objects c Owl.equivalentClass ++
    s.subjects Owl.equivalentClass c).filter Term.isIri

/-- A class and the named classes above it in the told hierarchy. -/
def toldSupers (s : Store) (c : Term) : List Term := s.search s.nextSupers [c] []

/-- The properties next to a property in the told hierarchy: above it, or equivalent to it. -/
def nextSuperProperties (s : Store) (p : Term) : List Term :=
  s.objects p Rdfs.subPropertyOf ++ s.objects p Owl.equivalentProperty ++
    s.subjects Owl.equivalentProperty p

/-- Whether the second property is the first or above it in the told hierarchy. -/
def isSubProperty (s : Store) (sub sup : Term) : Bool :=
  sub = sup || decide (sup ∈ s.search s.nextSuperProperties [sub] [])

/-- Whether a class is told to be disjoint from another, itself or by the classes above them. -/
def toldDisjoint (s : Store) (c excluded : Term) : Bool :=
  let above := s.toldSupers excluded
  (s.toldSupers c).any fun d =>
    (s.objects d Owl.disjointWith ++ s.subjects Owl.disjointWith d).any fun e =>
      decide (e ∈ above) || e = excluded

end Store

end GraphConformance
