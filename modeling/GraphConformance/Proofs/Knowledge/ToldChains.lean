import GraphConformance.Proofs.Knowledge.Decision

/-!
# Told closures are exact

In a hierarchy the triples tell which nodes are next to a node: those above it, and those that are
equivalent to it, in either direction (`Store.ToldNext`). Of classes only named ones are followed
(`Store.ToldNextClass`).

A search lists each node once (`nodup_search`), and what it lists is what can be reached, in
hierarchies with cycles too. So the told super-classes of a class are the classes that are reached
from it, and a property is below exactly those that are reached from it (`told_closures_exact`).
One round of subsumption looks up told super-classes whatever the depth is, so along a chain of told
classes each one is contained in all that follow (`pairwise_subsumes_of_isChain`). The classes are
those given by a node; what the IRIs of everything and of nothing are read as is none of them.
-/

set_option autoImplicit false

namespace GraphConformance

open Relation Vocabulary

namespace Store

variable {s : Store} {c d : Term}

/-- The second node is told to be above the first, or equivalent to it in either direction. -/
def ToldNext (s : Store) (above equivalent : Iri) (x y : Term) : Prop :=
  ⟨x, .iri above, y⟩ ∈ s.triples ∨ ⟨x, .iri equivalent, y⟩ ∈ s.triples ∨
    ⟨y, .iri equivalent, x⟩ ∈ s.triples

/-- The second node is a named class that is told to be next to the first. -/
def ToldNextClass (s : Store) (c d : Term) : Prop :=
  (∃ i, d = .iri i) ∧ s.ToldNext Rdfs.subClassOf Owl.equivalentClass c d

/-- The second property is told to be next to the first. -/
def ToldNextProperty (s : Store) (p q : Term) : Prop :=
  s.ToldNext Rdfs.subPropertyOf Owl.equivalentProperty p q

theorem mem_nextSupers_eq : (fun c d => d ∈ s.nextSupers c) = s.ToldNextClass := by
  funext c d
  rw [mem_nextSupers, Term.isIri_iff]
  rfl

theorem mem_nextSuperProperties_eq :
    (fun p q => q ∈ s.nextSuperProperties p) = s.ToldNextProperty := by
  funext p q
  rw [mem_nextSuperProperties]
  rfl

/-- A node is listed when it is met for the first time, and never again. -/
theorem nodup_search {next : Term → List Term} {stack seen : List Term} (h : seen.Nodup) :
    (s.search next stack seen).Nodup := by
  have hconcat : ∀ {seen : List Term} {x : Term}, seen.Nodup → x ∉ seen →
      (seen ++ [x]).Nodup := by
    intro seen x hseen hx
    rw [← List.concat_eq_append]
    exact hseen.concat hx
  fun_induction s.search next stack seen with
  | case1 seen => exact h
  | case2 seen x rest hmem ih => exact ih h
  | case3 seen x rest hnot hmention _ ih => exact ih (hconcat h hnot)
  | case4 seen x rest hnot hmention _ ih => exact ih (hconcat h hnot)

/-! ## Chains -/

/-- A class is contained in those that are reached from it: no rule has to be asked for more. -/
theorem subsumes_of_reaches (maxDepth : Nat) (h : ReflTransGen s.ToldNextClass c d) :
    s.subsumes maxDepth (.concept c) (.concept d) = true := by
  rw [← mem_nextSupers_eq, ← mem_toldSupers_iff] at h
  rw [subsumes_eq_entailsFreely, entailsFreely_succ_iff]
  exact Or.inr (step_of_rule (.hierarchy h) (by simp))

/-- Along a chain of told classes, each one is contained in all that follow. -/
theorem pairwise_subsumes_of_isChain (maxDepth : Nat) {chain : List Term}
    (h : chain.IsChain s.ToldNextClass) :
    chain.Pairwise fun c d => s.subsumes maxDepth (.concept c) (.concept d) = true := by
  have hreaches : chain.IsChain (ReflTransGen s.ToldNextClass) := h.imp fun _ _ => .single
  exact hreaches.pairwise.imp (subsumes_of_reaches maxDepth)

theorem subsumes_self (maxDepth : Nat) (e : Expression) : s.subsumes maxDepth e e = true := by
  rw [subsumes_eq_entailsFreely]
  exact entailsFreely_of_holdsAnyway (holdsAnyway_iff.mpr (Or.inl rfl)) _

end Store

/-- Told closures are exact. On every store, with cycles or without, the told super-classes of a
class are the class itself and the named classes that are reached from it by told super-classes and
equivalent classes, each of them once, and a property is a told sub-property of exactly those that
are reached from it. At every depth, therefore, each expression is contained in itself, and along a
chain of told classes each class is contained in all that follow it. -/
theorem told_closures_exact (s : Store) :
    (∀ c, (s.toldSupers c).Nodup ∧
      ∀ d, d ∈ s.toldSupers c ↔ ReflTransGen s.ToldNextClass c d) ∧
    (∀ p q, s.isSubProperty p q = true ↔ ReflTransGen s.ToldNextProperty p q) ∧
    ∀ maxDepth, (∀ e, s.subsumes maxDepth e e = true) ∧
      ∀ chain : List Term, chain.IsChain s.ToldNextClass →
        chain.Pairwise fun c d => s.subsumes maxDepth (.concept c) (.concept d) = true := by
  refine ⟨fun c => ⟨Store.nodup_search List.nodup_nil, fun d => ?_⟩, fun p q => ?_, ?_⟩
  · rw [← Store.mem_nextSupers_eq]
    exact Store.mem_toldSupers_iff
  · rw [← Store.mem_nextSuperProperties_eq]
    exact Store.isSubProperty_iff
  · intro maxDepth
    exact ⟨Store.subsumes_self maxDepth, fun _ => Store.pairwise_subsumes_of_isChain maxDepth⟩

/-! The classes A, B and C are in a circle, one of its edges an equivalence that is followed
backwards, and so are two properties. -/

namespace CircularHierarchy

def triples : List Triple :=
  [⟨.iri ⟨"A"⟩, .iri Rdfs.subClassOf, .iri ⟨"B"⟩⟩,
    ⟨.iri ⟨"C"⟩, .iri Owl.equivalentClass, .iri ⟨"B"⟩⟩,
    ⟨.iri ⟨"C"⟩, .iri Rdfs.subClassOf, .iri ⟨"A"⟩⟩,
    ⟨.iri ⟨"p"⟩, .iri Rdfs.subPropertyOf, .iri ⟨"q"⟩⟩,
    ⟨.iri ⟨"p"⟩, .iri Owl.equivalentProperty, .iri ⟨"q"⟩⟩]

def store : Store := .ofList triples

theorem store_triples : store.triples = triples := by
  rw [store, Store.ofList, Store.triples_insertAll]
  decide

def chain : List Term := [.iri ⟨"A"⟩, .iri ⟨"B"⟩, .iri ⟨"C"⟩, .iri ⟨"A"⟩]

theorem isChain_chain : chain.IsChain store.ToldNextClass := by
  have hAB : store.ToldNextClass (.iri ⟨"A"⟩) (.iri ⟨"B"⟩) :=
    ⟨⟨_, rfl⟩, Or.inl (by rw [store_triples]; decide)⟩
  have hBC : store.ToldNextClass (.iri ⟨"B"⟩) (.iri ⟨"C"⟩) :=
    ⟨⟨_, rfl⟩, Or.inr (Or.inr (by rw [store_triples]; decide))⟩
  have hCA : store.ToldNextClass (.iri ⟨"C"⟩) (.iri ⟨"A"⟩) :=
    ⟨⟨_, rfl⟩, Or.inl (by rw [store_triples]; decide)⟩
  exact .cons_cons hAB (.cons_cons hBC (.cons_cons hCA (.singleton _)))

/-- Without depth, each class of the circle is contained in each that follows, itself included. -/
theorem told_closures_exact_circle :
    chain.IsChain store.ToldNextClass ∧
      chain.Pairwise (fun c d => store.subsumes 0 (.concept c) (.concept d) = true) :=
  ⟨isChain_chain, ((told_closures_exact store).2.2 0).2 chain isChain_chain⟩

end CircularHierarchy

end GraphConformance
