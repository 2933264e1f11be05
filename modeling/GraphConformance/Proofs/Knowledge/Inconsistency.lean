import GraphConformance.Knowledge.Imports
import GraphConformance.Proofs.Knowledge.Consistency
import GraphConformance.Proofs.Knowledge.Histories

/-!
# Inconsistent stores

`Store.PutsInto` says that the told hierarchy puts an individual into a class: the class is a type
of the individual, or reached from one of its types by steps to classes told to be above or
equivalent. A store is reported to be inconsistent exactly if it puts an individual into the empty
class or into two classes told to be disjoint (`clashes_iff`, `isInconsistent_iff`).

No interpretation satisfies such a store (`SatisfiesTold.not_clashes`): the element of the
individual belongs to every class that the individual is put into. And each of the triples that put
it there stays when others are added (`PutsInto.mono`), so no import repairs an inconsistent
ontology.
-/

set_option autoImplicit false

namespace GraphConformance

open Vocabulary

universe u

namespace Store

variable {s s' : Store} {a c d : Term}

/-- The second class is told to be above the first, or one of them to be equivalent to the other.
Only classes with a name are above others. -/
def IsNextAbove (s : Store) (c d : Term) : Prop :=
  d.isIri = true ∧ (⟨c, .iri Rdfs.subClassOf, d⟩ ∈ s.triples ∨
    ⟨c, .iri Owl.equivalentClass, d⟩ ∈ s.triples ∨ ⟨d, .iri Owl.equivalentClass, c⟩ ∈ s.triples)

/-- The class is reached from a told type of the individual. -/
def PutsInto (s : Store) (a c : Term) : Prop :=
  ∃ b, ⟨a, .iri Rdf.type, b⟩ ∈ s.triples ∧ Relation.ReflTransGen s.IsNextAbove b c

/-- The store is reported to be inconsistent. -/
def IsInconsistent (s : Store) : Prop :=
  ∃ reason, s.checkConsistency = .error (.inconsistent reason)

theorem mem_toldSupers_iff_isNextAbove :
    d ∈ s.toldSupers c ↔ Relation.ReflTransGen s.IsNextAbove c d := by
  have hstep : (fun x y => y ∈ s.nextSupers x) = s.IsNextAbove := by
    funext x y
    exact propext mem_nextSupers
  rw [mem_toldSupers_iff, hstep]

theorem mem_typeClosure_iff_putsInto : c ∈ s.typeClosure a ↔ s.PutsInto a c := by
  rw [mem_typeClosure, PutsInto]
  refine exists_congr fun b => ?_
  rw [mem_types, mem_toldSupers_iff_isNextAbove]

theorem clashes_iff : s.Clashes a ↔ s.PutsInto a (.iri Owl.nothing) ∨
    ∃ c d, s.PutsInto a c ∧ s.PutsInto a d ∧ ⟨c, .iri Owl.disjointWith, d⟩ ∈ s.triples := by
  simp only [Clashes, mem_typeClosure_iff_putsInto]
  refine or_congr_right (exists_congr fun c => ?_)
  constructor
  · rintro ⟨hc, d, hd, hdisjoint⟩
    exact ⟨d, hc, hd, hdisjoint⟩
  · rintro ⟨d, hc, hd, hdisjoint⟩
    exact ⟨hc, d, hd, hdisjoint⟩

/-- A store that is not accepted is inconsistent, and an individual clashes in it. -/
theorem isInconsistent_iff : s.IsInconsistent ↔ ∃ a, s.Clashes a := by
  have hrefused : s.IsInconsistent ↔ s.checkConsistency ≠ .ok () := by
    rw [IsInconsistent, checkConsistency]
    split
    · simp
    · simp
  rw [hrefused, Ne, checkConsistency_eq_ok_iff]
  push Not
  rfl

/-! ## More triples -/

section Superset

variable (hsubset : s.triples ⊆ s'.triples)

include hsubset

theorem IsNextAbove.mono (h : s.IsNextAbove c d) : s'.IsNextAbove c d := by
  obtain ⟨hiri, h⟩ := h
  refine ⟨hiri, ?_⟩
  rcases h with h | h | h
  · exact Or.inl (hsubset h)
  · exact Or.inr (Or.inl (hsubset h))
  · exact Or.inr (Or.inr (hsubset h))

theorem reflTransGen_isNextAbove_mono (h : Relation.ReflTransGen s.IsNextAbove c d) :
    Relation.ReflTransGen s'.IsNextAbove c d := by
  have hmono : s.IsNextAbove ≤ s'.IsNextAbove := fun _ _ h => h.mono hsubset
  exact Relation.ReflTransGen.mono hmono _ _ h

theorem PutsInto.mono (h : s.PutsInto a c) : s'.PutsInto a c := by
  obtain ⟨b, hb, hreach⟩ := h
  exact ⟨b, hsubset hb, reflTransGen_isNextAbove_mono hsubset hreach⟩

theorem Clashes.mono (h : s.Clashes a) : s'.Clashes a := by
  rw [clashes_iff] at h ⊢
  rcases h with h | ⟨c, d, hc, hd, hdisjoint⟩
  · exact Or.inl (h.mono hsubset)
  · exact Or.inr ⟨c, d, hc.mono hsubset, hd.mono hsubset, hsubset hdisjoint⟩

theorem IsInconsistent.mono (h : s.IsInconsistent) : s'.IsInconsistent := by
  rw [isInconsistent_iff] at h ⊢
  obtain ⟨a, ha⟩ := h
  exact ⟨a, ha.mono hsubset⟩

end Superset

/-- What is known before documents are merged is known after. -/
theorem subset_foldl_merge (documents : List Store) (s : Store) :
    s.triples ⊆ (documents.foldl merge s).triples := by
  rw [triples_foldl_merge]
  exact (Distinct.prefix_union _ _).subset

end Store

/-! ## In interpretations -/

namespace Interpretation.SatisfiesTold

variable {Δ : Type u} {I : Interpretation Δ} {s : Store} {a c : Term}

theorem element_mem_of_putsInto (h : I.SatisfiesTold s) (hc : s.PutsInto a c) :
    I.element a ∈ I.extension c := by
  obtain ⟨b, hb, hreach⟩ := hc
  have habove := Store.mem_toldSupers_iff_isNextAbove.mpr hreach
  exact h.extension_subset_of_mem_toldSupers habove (h.type a b hb)

theorem not_clashes (h : I.SatisfiesTold s) (a : Term) : ¬ s.Clashes a := by
  rw [Store.clashes_iff]
  rintro (hnothing | ⟨c, d, hc, hd, hdisjoint⟩)
  · have hmem := h.element_mem_of_putsInto hnothing
    rw [h.nothing] at hmem
    exact hmem
  · have hmem : I.element a ∈ I.extension c ∩ I.extension d :=
      ⟨h.element_mem_of_putsInto hc, h.element_mem_of_putsInto hd⟩
    rw [h.disjointWith c d hdisjoint] at hmem
    exact hmem

end Interpretation.SatisfiesTold

/-- The check is exact: a store is inconsistent if and only if the told hierarchy puts an individual
into the empty class or into two classes told to be disjoint. It is sound: no interpretation
satisfies what an inconsistent store tells. And it is monotone: more triples, as imports add them,
leave an inconsistent store inconsistent. -/
theorem checkConsistency_decides (s : Store) :
    (s.IsInconsistent ↔ ∃ a, s.PutsInto a (.iri Owl.nothing) ∨
      ∃ c d, s.PutsInto a c ∧ s.PutsInto a d ∧ ⟨c, .iri Owl.disjointWith, d⟩ ∈ s.triples) ∧
    (s.IsInconsistent → ∀ (Δ : Type u) (I : Interpretation Δ), ¬ I.SatisfiesTold s) ∧
    (s.IsInconsistent → ∀ s' : Store, s.triples ⊆ s'.triples → s'.IsInconsistent) ∧
    (s.IsInconsistent → ∀ (kb kb' : KnowledgeBase) (documents : List Store) (ticket : Nat),
      kb.ontology = s → kb.importAll? documents = some (ticket, kb') →
        kb'.knowledge.store.IsInconsistent) := by
  refine ⟨?_, ?_, ?_, ?_⟩
  · simp only [Store.isInconsistent_iff, Store.clashes_iff]
  · intro h Δ I hI
    obtain ⟨a, ha⟩ := Store.isInconsistent_iff.mp h
    exact hI.not_clashes a ha
  · intro h s' hsubset
    exact h.mono hsubset
  · rintro h kb kb' documents ticket rfl himport
    obtain ⟨-, -, rfl⟩ := KnowledgeBase.importAll?_eq_some_iff.mp himport
    exact h.mono (Store.subset_foldl_merge documents kb.ontology)

/-! a is an A and an E. The As are Bs, and D, which is told to be equivalent to E, is told to be
disjoint from B. -/

namespace DisjointAbove

def store : Store := .ofList
  [⟨.iri ⟨"a"⟩, .iri Rdf.type, .iri ⟨"A"⟩⟩, ⟨.iri ⟨"a"⟩, .iri Rdf.type, .iri ⟨"E"⟩⟩,
    ⟨.iri ⟨"A"⟩, .iri Rdfs.subClassOf, .iri ⟨"B"⟩⟩,
    ⟨.iri ⟨"D"⟩, .iri Owl.equivalentClass, .iri ⟨"E"⟩⟩,
    ⟨.iri ⟨"D"⟩, .iri Owl.disjointWith, .iri ⟨"B"⟩⟩]

def document : Store := .ofList [⟨.iri ⟨"a"⟩, .iri Rdf.type, .iri ⟨"C"⟩⟩]

theorem putsInto_B : store.PutsInto (.iri ⟨"a"⟩) (.iri ⟨"B"⟩) :=
  ⟨.iri ⟨"A"⟩, by decide, .single ⟨rfl, Or.inl (by decide)⟩⟩

theorem putsInto_D : store.PutsInto (.iri ⟨"a"⟩) (.iri ⟨"D"⟩) :=
  ⟨.iri ⟨"E"⟩, by decide, .single ⟨rfl, Or.inr (Or.inr (by decide))⟩⟩

/-- The two classes are found from either side, nothing satisfies the store, and a document that is
imported changes nothing about it. -/
theorem decides_disjointAbove :
    store.IsInconsistent ∧ (∀ I : Interpretation Bool, ¬ I.SatisfiesTold store) ∧
      (store.merge document).IsInconsistent ∧
      ∃ kb', (KnowledgeBase.ofOntology store 2).importAll? [document] = some (0, kb') ∧
        kb'.knowledge.store.IsInconsistent := by
  obtain ⟨hexact, hsound, hmono, himport⟩ := checkConsistency_decides store
  have hinconsistent : store.IsInconsistent :=
    hexact.mpr ⟨_, Or.inr ⟨_, _, putsInto_D, putsInto_B, by decide⟩⟩
  refine ⟨hinconsistent, hsound hinconsistent Bool, ?_, ?_⟩
  · exact hmono hinconsistent _ (Store.subset_foldl_merge [document] store)
  · exact ⟨_, rfl, himport hinconsistent (.ofOntology store 2) _ [document] 0 rfl rfl⟩

end DisjointAbove

end GraphConformance
