import GraphConformance.Proofs.Expression.Interpretation
import GraphConformance.Proofs.Store.Queries
import GraphConformance.Knowledge.Subsumption
import Mathlib.Logic.Relation

/-!
# Told closures in a model

A property of nodes that passes from a node to its successors holds of all that a search lists
(`forall_mem_search`), and with each node a search lists its successors (`closed_search`); so what a
search from a node lists is what can be reached from it (`mem_search_iff`). In an interpretation
that models the store the told super-classes of a class contain it, a told sub-property relates no
more than the property, and classes told to be disjoint have no common element.
-/

set_option autoImplicit false

namespace GraphConformance

open Vocabulary

universe u

namespace Store

/-- What holds of the nodes at hand and passes to successors holds of all nodes found. -/
theorem forall_mem_search {s : Store} {next : Term → List Term} {P : Term → Prop}
    (hnext : ∀ x, P x → ∀ y ∈ next x, P y) (stack seen : List Term)
    (hstack : ∀ x ∈ stack, P x) (hseen : ∀ x ∈ seen, P x) :
    ∀ x ∈ s.search next stack seen, P x := by
  fun_induction s.search next stack seen with
  | case1 seen => exact hseen
  | case2 seen x rest hmem ih =>
    exact ih (fun y hy => hstack y (List.mem_cons_of_mem _ hy)) hseen
  | case3 seen x rest hnot hmention _ ih =>
    have hx : P x := hstack x List.mem_cons_self
    apply ih
    · intro y hy
      rcases List.mem_append.mp hy with hy | hy
      · exact hnext x hx y (List.mem_reverse.mp hy)
      · exact hstack y (List.mem_cons_of_mem _ hy)
    · intro y hy
      rcases List.mem_append.mp hy with hy | hy
      · exact hseen y hy
      · rw [List.mem_singleton.mp hy]
        exact hx
  | case4 seen x rest hnot hmention _ ih =>
    apply ih
    · exact fun y hy => hstack y (List.mem_cons_of_mem _ hy)
    · intro y hy
      rcases List.mem_append.mp hy with hy | hy
      · exact hseen y hy
      · rw [List.mem_singleton.mp hy]
        exact hstack x List.mem_cons_self

/-- All nodes at hand are listed. -/
theorem mem_search {s : Store} {next : Term → List Term} {stack seen : List Term} {x : Term}
    (hx : x ∈ seen ∨ x ∈ stack) : x ∈ s.search next stack seen := by
  fun_induction s.search next stack seen with
  | case1 seen => exact hx.resolve_right (by simp)
  | case2 seen z rest hmem ih =>
    rcases hx with hx | hx
    · exact ih (Or.inl hx)
    · rcases List.mem_cons.mp hx with rfl | hx
      · exact ih (Or.inl hmem)
      · exact ih (Or.inr hx)
  | case3 seen z rest hnot hmention _ ih =>
    rcases hx with hx | hx
    · exact ih (Or.inl (List.mem_append_left _ hx))
    · rcases List.mem_cons.mp hx with rfl | hx
      · exact ih (Or.inl (List.mem_append_right _ (List.mem_singleton.mpr rfl)))
      · exact ih (Or.inr (List.mem_append_right _ hx))
  | case4 seen z rest hnot hmention _ ih =>
    rcases hx with hx | hx
    · exact ih (Or.inl (List.mem_append_left _ hx))
    · rcases List.mem_cons.mp hx with rfl | hx
      · exact ih (Or.inl (List.mem_append_right _ (List.mem_singleton.mpr rfl)))
      · exact ih (Or.inr hx)

/-- The successors of the nodes seen are seen or on the stack. -/
def Covered (next : Term → List Term) (stack seen : List Term) : Prop :=
  ∀ x ∈ seen, ∀ y ∈ next x, y ∈ seen ∨ y ∈ stack

namespace Covered

variable {next : Term → List Term} {x : Term} {rest stack seen : List Term}

theorem drop (h : Covered next (x :: rest) seen) (hx : x ∈ seen) : Covered next rest seen := by
  intro z hz y hy
  rcases h z hz y hy with hy | hy
  · exact Or.inl hy
  · rcases List.mem_cons.mp hy with rfl | hy
    · exact Or.inl hx
    · exact Or.inr hy

theorem concat (h : Covered next (x :: rest) seen) (hrest : rest ⊆ stack) (hnext : next x ⊆ stack) :
    Covered next stack (seen ++ [x]) := by
  intro z hz y hy
  rcases List.mem_append.mp hz with hz | hz
  · rcases h z hz y hy with hy | hy
    · exact Or.inl (List.mem_append_left _ hy)
    · rcases List.mem_cons.mp hy with rfl | hy
      · exact Or.inl (List.mem_append_right _ (List.mem_singleton.mpr rfl))
      · exact Or.inr (hrest hy)
  · obtain rfl := List.mem_singleton.mp hz
    exact Or.inr (hnext hy)

end Covered

/-- A search lists with each node its successors, if nodes that the store does not mention have
none. -/
theorem closed_search {s : Store} {next : Term → List Term}
    (hnext : ∀ x, s.mentions x = false → next x = []) {stack seen : List Term}
    (h : Covered next stack seen) :
    ∀ x ∈ s.search next stack seen, ∀ y ∈ next x, y ∈ s.search next stack seen := by
  fun_induction s.search next stack seen with
  | case1 seen => exact fun x hx y hy => (h x hx y hy).resolve_right (by simp)
  | case2 seen x rest hmem ih => exact ih (h.drop hmem)
  | case3 seen x rest hnot hmention _ ih =>
    apply ih
    apply h.concat
    · exact List.subset_append_right _ _
    · exact fun y hy => List.mem_append_left _ (List.mem_reverse.mpr hy)
  | case4 seen x rest hnot hmention _ ih =>
    apply ih
    apply h.concat (List.Subset.refl rest)
    rw [hnext x (Bool.eq_false_iff.mpr hmention)]
    exact List.nil_subset rest

/-- A search from a node lists what can be reached from it, if nodes that the store does not mention
have no successors. -/
theorem mem_search_iff {s : Store} {next : Term → List Term}
    (hnext : ∀ x, s.mentions x = false → next x = []) {x y : Term} :
    y ∈ s.search next [x] [] ↔ Relation.ReflTransGen (fun a b => b ∈ next a) x y := by
  constructor
  · refine forall_mem_search (P := Relation.ReflTransGen (fun a b => b ∈ next a) x) ?_ [x] []
      ?_ (by simp) y
    · intro a ha b hb
      exact ha.tail hb
    · exact List.forall_mem_singleton.mpr .refl
  · intro h
    induction h with
    | refl => exact mem_search (Or.inr (List.mem_singleton_self x))
    | tail _ hb ih => exact closed_search hnext (fun _ hz => by cases hz) _ ih _ hb

theorem mem_nextSupers {s : Store} {c d : Term} : d ∈ s.nextSupers c ↔
    d.isIri = true ∧ (⟨c, .iri Rdfs.subClassOf, d⟩ ∈ s.triples ∨
      ⟨c, .iri Owl.equivalentClass, d⟩ ∈ s.triples ∨
        ⟨d, .iri Owl.equivalentClass, c⟩ ∈ s.triples) := by
  rw [nextSupers, List.mem_filter, List.mem_append, List.mem_append, mem_objects, mem_objects,
    mem_subjects, or_assoc, and_comm]

theorem nextSupers_of_not_mentions {s : Store} {c : Term} (h : s.mentions c = false) :
    s.nextSupers c = [] := by
  rw [List.eq_nil_iff_forall_not_mem]
  intro d hd
  have hmentions : s.mentions c = true := by
    rw [mentions_iff]
    obtain ⟨-, hd | hd | hd⟩ := mem_nextSupers.mp hd
    · exact ⟨_, hd, Or.inl rfl⟩
    · exact ⟨_, hd, Or.inl rfl⟩
    · exact ⟨_, hd, Or.inr (Or.inr rfl)⟩
  rw [h] at hmentions
  cases hmentions

theorem mem_toldSupers_iff {s : Store} {c d : Term} :
    d ∈ s.toldSupers c ↔ Relation.ReflTransGen (fun a b => b ∈ s.nextSupers a) c d :=
  mem_search_iff fun _ => nextSupers_of_not_mentions

theorem self_mem_toldSupers (s : Store) (c : Term) : c ∈ s.toldSupers c :=
  mem_toldSupers_iff.mpr .refl

theorem mem_toldSupers_of_mem_nextSupers {s : Store} {c d e : Term} (hd : d ∈ s.toldSupers c)
    (he : e ∈ s.nextSupers d) : e ∈ s.toldSupers c :=
  mem_toldSupers_iff.mpr ((mem_toldSupers_iff.mp hd).tail he)

/-- Above a class, other than itself, there are only named classes. -/
theorem eq_or_isIri_of_mem_toldSupers {s : Store} {c d : Term} (h : d ∈ s.toldSupers c) :
    d = c ∨ d.isIri = true := by
  refine forall_mem_search (P := fun d => d = c ∨ d.isIri = true) ?_ [c] [] (by simp) (by simp) d h
  intro x _ y hy
  exact Or.inr (mem_nextSupers.mp hy).1

/-- A class with nothing next to it is alone in the told hierarchy. -/
theorem toldSupers_eq_singleton {s : Store} {c : Term} (h : s.nextSupers c = []) :
    s.toldSupers c = [c] := by
  rw [toldSupers, search]
  simp [h, search]

theorem mem_nextSuperProperties {s : Store} {p q : Term} : q ∈ s.nextSuperProperties p ↔
    ⟨p, .iri Rdfs.subPropertyOf, q⟩ ∈ s.triples ∨ ⟨p, .iri Owl.equivalentProperty, q⟩ ∈ s.triples ∨
      ⟨q, .iri Owl.equivalentProperty, p⟩ ∈ s.triples := by
  rw [nextSuperProperties, List.mem_append, List.mem_append, mem_objects, mem_objects, mem_subjects,
    or_assoc]

theorem nextSuperProperties_of_not_mentions {s : Store} {p : Term} (h : s.mentions p = false) :
    s.nextSuperProperties p = [] := by
  rw [List.eq_nil_iff_forall_not_mem]
  intro q hq
  have hmentions : s.mentions p = true := by
    rw [mentions_iff]
    obtain hq | hq | hq := mem_nextSuperProperties.mp hq
    · exact ⟨_, hq, Or.inl rfl⟩
    · exact ⟨_, hq, Or.inl rfl⟩
    · exact ⟨_, hq, Or.inr (Or.inr rfl)⟩
  rw [h] at hmentions
  cases hmentions

/-- A property is below those that are reached from it in the told hierarchy. -/
theorem isSubProperty_iff {s : Store} {p q : Term} : s.isSubProperty p q = true ↔
    Relation.ReflTransGen (fun a b => b ∈ s.nextSuperProperties a) p q := by
  rw [isSubProperty, Bool.or_eq_true, decide_eq_true_eq, decide_eq_true_eq,
    mem_search_iff fun _ => nextSuperProperties_of_not_mentions]
  constructor
  · rintro (rfl | h)
    · exact .refl
    · exact h
  · exact Or.inr

/-- Two classes are told to be disjoint if classes above them are, in either order. -/
theorem toldDisjoint_iff {s : Store} {c excluded : Term} : s.toldDisjoint c excluded = true ↔
    ∃ d ∈ s.toldSupers c, ∃ e ∈ s.toldSupers excluded,
      ⟨d, .iri Owl.disjointWith, e⟩ ∈ s.triples ∨ ⟨e, .iri Owl.disjointWith, d⟩ ∈ s.triples := by
  have habove : ∀ e, (e ∈ s.toldSupers excluded ∨ e = excluded) ↔ e ∈ s.toldSupers excluded := by
    intro e
    refine or_iff_left_of_imp ?_
    rintro rfl
    exact s.self_mem_toldSupers e
  simp only [toldDisjoint, List.any_eq_true, List.mem_append, mem_objects, mem_subjects,
    Bool.or_eq_true, decide_eq_true_eq, habove]
  refine exists_congr fun d => and_congr_right fun _ => exists_congr fun e => ?_
  exact and_comm

theorem mem_superClasses {s : Store} {c : Term} {e : Expression} : e ∈ s.superClasses c ↔
    ∃ d, ⟨c, .iri Rdfs.subClassOf, d⟩ ∈ s.triples ∧ s.expression d = e := by
  simp only [superClasses, List.mem_map, mem_objects]

theorem mem_equivalentClasses {s : Store} {c : Term} {e : Expression} :
    e ∈ s.equivalentClasses c ↔ ∃ d, (⟨c, .iri Owl.equivalentClass, d⟩ ∈ s.triples ∨
      ⟨d, .iri Owl.equivalentClass, c⟩ ∈ s.triples) ∧ s.expression d = e := by
  simp only [equivalentClasses, Distinct.mem_dedup, List.mem_map, List.mem_append, mem_objects,
    mem_subjects]

end Store

namespace Interpretation

variable {Δ : Type u} {I : Interpretation Δ} {s : Store}

theorem SatisfiesTold.extension_subset_of_mem_toldSupers (h : I.SatisfiesTold s) {c d : Term}
    (hd : d ∈ s.toldSupers c) : I.extension c ⊆ I.extension d := by
  have hreach := Store.mem_toldSupers_iff.mp hd
  clear hd
  induction hreach with
  | refl => exact subset_rfl
  | @tail d e _ he ih =>
    obtain ⟨-, he | he | he⟩ := Store.mem_nextSupers.mp he
    · exact ih.trans (h.subClassOf d e he)
    · exact ih.trans (h.equivalentClass d e he).subset
    · exact ih.trans (h.equivalentClass e d he).superset

end Interpretation

namespace Interpretation.Models

variable {Δ : Type u} {I : Interpretation Δ} {s : Store}

theorem extension_subset_of_mem_toldSupers (h : I.Models s) {c d : Term}
    (hd : d ∈ s.toldSupers c) : I.extension c ⊆ I.extension d :=
  h.satisfiesTold.extension_subset_of_mem_toldSupers hd

theorem successors_subset_of_isSubProperty (h : I.Models s) {p q : Term}
    (hpq : s.isSubProperty p q = true) (x : Δ) : I.successors p x ⊆ I.successors q x := by
  have hreach := Store.isSubProperty_iff.mp hpq
  clear hpq
  induction hreach with
  | refl => exact subset_rfl
  | @tail q r _ hr ih =>
    obtain hr | hr | hr := Store.mem_nextSuperProperties.mp hr
    · exact ih.trans (h.subPropertyOf q r hr x)
    · exact ih.trans (h.equivalentProperty q r hr x).subset
    · exact ih.trans (h.equivalentProperty r q hr x).superset

theorem disjoint_of_toldDisjoint (h : I.Models s) {c excluded : Term}
    (hd : s.toldDisjoint c excluded = true) :
    I.extension c ∩ I.extension excluded = ∅ := by
  -- `d` is above the one class, `e` above the other one, and the two are told to be disjoint
  obtain ⟨d, hcd, e, he, hde⟩ := Store.toldDisjoint_iff.mp hd
  have hdisjoint : I.extension d ∩ I.extension e = ∅ := by
    rcases hde with hde | hde
    · exact h.disjointWith d e hde
    · rw [Set.inter_comm]
      exact h.disjointWith e d hde
  rw [← Set.subset_empty_iff, ← hdisjoint]
  exact Set.inter_subset_inter (h.extension_subset_of_mem_toldSupers hcd)
    (h.extension_subset_of_mem_toldSupers he)

theorem extension_subset_of_mem_superClasses (h : I.Models s) {c : Term} {e : Expression}
    (he : e ∈ s.superClasses c) : I.extension c ⊆ e.meaning I := by
  obtain ⟨d, hd, rfl⟩ := Store.mem_superClasses.mp he
  rw [← h.reading d]
  exact h.subClassOf c d hd

theorem meaning_of_mem_equivalentClasses (h : I.Models s) {c : Term} {e : Expression}
    (he : e ∈ s.equivalentClasses c) : e.meaning I = I.extension c := by
  obtain ⟨d, hd, rfl⟩ := Store.mem_equivalentClasses.mp he
  rw [← h.reading d]
  rcases hd with hd | hd
  · exact (h.equivalentClass c d hd).symm
  · exact h.equivalentClass d c hd

end Interpretation.Models

end GraphConformance
