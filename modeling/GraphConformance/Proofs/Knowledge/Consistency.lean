import GraphConformance.Knowledge.Consistency
import GraphConformance.Proofs.Knowledge.Closure

/-!
# Consistent stores

The classes of an individual are those above its types (`mem_typeClosure`), and a store is
consistent exactly if no individual clashes (`checkConsistency_eq_ok_iff`). A store in which nothing
is said of the empty class or of disjointness has no clash (`checkConsistency_of_silent`).

A clash comes from the classes of the individual alone. Statements added to a store make no new one
where they only repeat classes that the individual has, speak of others, or give a literal as a
value (`AddsNoClass.clashes`).
-/

set_option autoImplicit false

namespace GraphConformance.Store

open Vocabulary

variable {s s' : Store} {a : Term}

theorem mem_typeClosure {individual d : Term} :
    d ∈ s.typeClosure individual ↔ ∃ c ∈ s.types individual, d ∈ s.toldSupers c := by
  have hfold : ∀ (cs closure : List Term),
      d ∈ cs.foldl (fun closure c => Distinct.union closure (s.toldSupers c)) closure ↔
        d ∈ closure ∨ ∃ c ∈ cs, d ∈ s.toldSupers c := by
    intro cs
    induction cs with
    | nil => simp
    | cons c cs ih =>
      intro closure
      rw [List.foldl_cons, ih, Distinct.mem_union]
      simp [or_assoc]
  rw [typeClosure, hfold]
  simp

theorem mem_typeClosure_of_mem_types {c : Term} (h : c ∈ s.types a) : c ∈ s.typeClosure a :=
  mem_typeClosure.mpr ⟨c, h, s.self_mem_toldSupers c⟩

theorem mem_typeClosure_of_mem_nextSupers {c d : Term} (hc : c ∈ s.typeClosure a)
    (hd : d ∈ s.nextSupers c) : d ∈ s.typeClosure a := by
  obtain ⟨b, hb, hbc⟩ := mem_typeClosure.mp hc
  exact mem_typeClosure.mpr ⟨b, hb, mem_toldSupers_of_mem_nextSupers hbc hd⟩

/-! ## Clashes -/

/-- The told hierarchy puts the individual into the empty class, or into classes told to be
disjoint. -/
def Clashes (s : Store) (a : Term) : Prop :=
  .iri Owl.nothing ∈ s.typeClosure a ∨
    ∃ c ∈ s.typeClosure a, ∃ d ∈ s.typeClosure a, ⟨c, .iri Owl.disjointWith, d⟩ ∈ s.triples

theorem disjointPair?_eq_none_iff {classes : List Term} : s.disjointPair? classes = none ↔
    ∀ c ∈ classes, ∀ d ∈ classes, ⟨c, .iri Owl.disjointWith, d⟩ ∉ s.triples := by
  rw [disjointPair?, List.findSome?_eq_none_iff]
  refine forall₂_congr fun c _ => ?_
  rw [Option.map_eq_none_iff, List.find?_eq_none]
  simp only [mem_objects, decide_eq_true_eq]
  exact ⟨fun h d hd hcd => h d hcd hd, fun h d hcd hd => h d hd hcd⟩

theorem clash?_eq_none_iff : s.clash? a (s.typeClosure a) = none ↔ ¬ s.Clashes a := by
  rw [clash?, Clashes, not_or]
  split
  · rename_i hnothing
    simp [hnothing]
  · rename_i hnothing
    rw [Option.map_eq_none_iff, disjointPair?_eq_none_iff, and_iff_right hnothing]
    push Not
    rfl

theorem mem_typedIndividuals : a ∈ s.typedIndividuals ↔ ∃ c, c ∈ s.types a := by
  rw [typedIndividuals, Distinct.mem_dedup, List.mem_map]
  constructor
  · rintro ⟨t, ht, rfl⟩
    rw [List.mem_filter, decide_eq_true_eq] at ht
    exact ⟨t.object, mem_types.mpr (ht.2 ▸ ht.1)⟩
  · rintro ⟨c, hc⟩
    exact ⟨_, List.mem_filter.mpr ⟨mem_types.mp hc, by simp⟩, rfl⟩

theorem exists_mem_types_of_mem_typeClosure {c : Term} (h : c ∈ s.typeClosure a) :
    ∃ d, d ∈ s.types a := by
  obtain ⟨d, hd, -⟩ := mem_typeClosure.mp h
  exact ⟨d, hd⟩

theorem Clashes.mem_typedIndividuals (h : s.Clashes a) : a ∈ s.typedIndividuals := by
  rw [Store.mem_typedIndividuals]
  rcases h with h | ⟨c, hc, -⟩
  · exact exists_mem_types_of_mem_typeClosure h
  · exact exists_mem_types_of_mem_typeClosure hc

/-- A store is consistent exactly if no individual clashes. -/
theorem checkConsistency_eq_ok_iff : s.checkConsistency = .ok () ↔ ∀ a, ¬ s.Clashes a := by
  rw [checkConsistency]
  split
  · rename_i reason hreason
    obtain ⟨a, -, ha⟩ := List.exists_of_findSome?_eq_some hreason
    refine iff_of_false (by simp) fun h => ?_
    rw [clash?_eq_none_iff.mpr (h a)] at ha
    cases ha
  · rename_i hnone
    refine iff_of_true rfl fun a ha => ?_
    exact clash?_eq_none_iff.mp
      (List.findSome?_eq_none_iff.mp hnone a ha.mem_typedIndividuals) ha

/-! ## Silent stores -/

/-- Nothing is said of the empty class, and no classes are told to be disjoint. -/
def Silent (s : Store) : Prop :=
  ∀ t ∈ s.triples, t.predicate ≠ .iri Owl.disjointWith ∧ t.subject ≠ .iri Owl.nothing ∧
    t.object ≠ .iri Owl.nothing

instance : DecidablePred Silent := fun s =>
  inferInstanceAs (Decidable (∀ t ∈ s.triples, t.predicate ≠ .iri Owl.disjointWith ∧
    t.subject ≠ .iri Owl.nothing ∧ t.object ≠ .iri Owl.nothing))

theorem Silent.ne_nothing_of_mem_toldSupers (h : s.Silent) {c d : Term}
    (hc : c ≠ .iri Owl.nothing) (hd : d ∈ s.toldSupers c) : d ≠ .iri Owl.nothing := by
  refine forall_mem_search (P := fun d => d ≠ .iri Owl.nothing) ?_ [c] [] (by simpa using hc)
    (by simp) d hd
  intro x _ y hy
  obtain ⟨-, hy | hy | hy⟩ := mem_nextSupers.mp hy
  · exact (h _ hy).2.2
  · exact (h _ hy).2.2
  · exact (h _ hy).2.1

theorem checkConsistency_of_silent (h : s.Silent) : s.checkConsistency = .ok () := by
  rw [checkConsistency_eq_ok_iff]
  rintro a (hnothing | ⟨c, -, d, -, hdisjoint⟩)
  · obtain ⟨c, hc, hd⟩ := mem_typeClosure.mp hnothing
    exact h.ne_nothing_of_mem_toldSupers (h _ (mem_types.mp hc)).2.2 hd rfl
  · exact (h _ hdisjoint).1 rfl

/-! ## Stores with more statements -/

/-- The second store tells the individual no class that the first one does not, and its further
statements are memberships, or have literals as values that are not among the individual's types. -/
structure AddsNoClass (s s' : Store) (a : Term) : Prop where
  types : ∀ c ∈ s'.types a, c ∈ s.typeClosure a
  others : ∀ t ∈ s'.triples, t ∈ s.triples ∨ t.predicate = .iri Rdf.type ∨
    t.object.isIndividual = false ∧ t.object ∉ s.types a

namespace AddsNoClass

/-- A literal that is a class of an individual is one of its types. -/
theorem mem_types_of_mem_typeClosure {c : Term} (hc : c ∈ s.typeClosure a)
    (hliteral : c.isIndividual = false) : c ∈ s.types a := by
  obtain ⟨b, hb, hbc⟩ := mem_typeClosure.mp hc
  rcases eq_or_isIri_of_mem_toldSupers hbc with rfl | hiri
  · exact hb
  · cases c with
    | iri i => cases hliteral
    | literal l => cases hiri
    | blank b => cases hliteral

/-- A statement of the hierarchy with a class of the individual as its value is not new. -/
theorem mem_triples (h : s.AddsNoClass s' a) {x y : Term} {p : Iri}
    (hxy : ⟨x, .iri p, y⟩ ∈ s'.triples) (hp : p ≠ Rdf.type)
    (hy : y.isIndividual = true ∨ y ∈ s.typeClosure a) : ⟨x, .iri p, y⟩ ∈ s.triples := by
  rcases h.others _ hxy with hold | htype | ⟨hliteral, hnot⟩
  · exact hold
  · exact absurd (Term.iri.inj htype) hp
  · rcases hy with hindividual | hclass
    · rw [show y.isIndividual = false from hliteral] at hindividual
      cases hindividual
    · exact absurd (mem_types_of_mem_typeClosure hclass hliteral) hnot

theorem mem_nextSupers (h : s.AddsNoClass s' a) {c d : Term} (hc : c ∈ s.typeClosure a)
    (hd : d ∈ s'.nextSupers c) : d ∈ s.nextSupers c := by
  obtain ⟨hiri, hd⟩ := Store.mem_nextSupers.mp hd
  have hindividual : d.isIndividual = true := by
    cases d with
    | iri i => rfl
    | literal l => cases hiri
    | blank b => rfl
  refine Store.mem_nextSupers.mpr ⟨hiri, ?_⟩
  rcases hd with hd | hd | hd
  · exact Or.inl (h.mem_triples hd (by decide) (Or.inl hindividual))
  · exact Or.inr (Or.inl (h.mem_triples hd (by decide) (Or.inl hindividual)))
  · exact Or.inr (Or.inr (h.mem_triples hd (by decide) (Or.inr hc)))

theorem typeClosure_subset (h : s.AddsNoClass s' a) {c : Term} (hc : c ∈ s'.typeClosure a) :
    c ∈ s.typeClosure a := by
  obtain ⟨b, hb, hbc⟩ := mem_typeClosure.mp hc
  refine forall_mem_search (P := fun c => c ∈ s.typeClosure a) ?_ [b] []
    (by simpa using h.types b hb) (by simp) c hbc
  intro x hx y hy
  exact mem_typeClosure_of_mem_nextSupers hx (h.mem_nextSupers hx hy)

/-- A clash of an individual that is told no new class was there before. -/
theorem clashes (h : s.AddsNoClass s' a) (hclash : s'.Clashes a) : s.Clashes a := by
  rcases hclash with hnothing | ⟨c, hc, d, hd, hdisjoint⟩
  · exact Or.inl (h.typeClosure_subset hnothing)
  · have hd := h.typeClosure_subset hd
    exact Or.inr ⟨c, h.typeClosure_subset hc, d, hd,
      h.mem_triples hdisjoint (by decide) (Or.inr hd)⟩

end AddsNoClass

end GraphConformance.Store
