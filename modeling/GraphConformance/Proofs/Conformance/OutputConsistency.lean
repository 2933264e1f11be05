import GraphConformance.Proofs.Conformance.Contents
import GraphConformance.Proofs.Evidence.Provenance
import GraphConformance.Proofs.Knowledge.Consistency

/-!
# Whether an accepted document is consistent

A pass starts from consistent knowledge, and what it adds is memberships and default values. An
accepted document can therefore only clash at an individual whose classes the pass itself has
changed (`Accepted.Retypes`), and is consistent exactly if none of these clashes
(`consistent_iff_of_conform?`).

That none of them clashes is nowhere checked. The types of a template's object are copied to an
object of which nothing is said, under each subject anew, and the types that one object gets so may
be disjoint (`DisjointTypes`).
-/

set_option autoImplicit false

namespace GraphConformance.Conformance

open Vocabulary

/-- The pass changed the classes of an individual: it found a membership in a class that the
individual did not have by the told hierarchy, or filled in a literal that is one of its types. -/
inductive Accepted.Retypes (d : Accepted) (checked : Store) (a : Term) : Prop
  | membership (c : Term) (found : ⟨a, .iri Rdf.type, c⟩ ∈ d.translated)
      (new : c ∉ checked.typeClosure a)
  | literal (x : Triple) (filled : x ∈ d.document.triples) (new : x ∉ checked.triples)
      (value : x.object.isIndividual = false) (type : x.object ∈ checked.types a)

namespace Pass

variable {pass : Pass} {f : Progress} {individual template : Term} {x : Triple}

theorem backs_of_mem_foundFor (hf : pass.Reaches f) (hx : x ∈ pass.foundFor f individual template) :
    pass.knowledge.Backs individual x := by
  obtain ⟨statements, htranslate, hx⟩ := hx
  obtain ⟨calls, -, hcalls⟩ := hf
  rw [translate] at htranslate
  split at htranslate
  · cases htranslate
  · rename_i target htarget
    rw [hcalls] at htranslate
    exact backs_of_translate pass.knowledge calls target individual statements htranslate x hx

theorem predicate_of_mem_copiedTypes (hx : x ∈ pass.copiedTypes individual template) :
    x.predicate = .iri Rdf.type := by
  rw [copiedTypes, Distinct.mem_dedup] at hx
  obtain ⟨t, -, rfl⟩ := List.mem_map.mp hx
  rfl

theorem literal_of_mem_defaultsFor (hx : x ∈ pass.defaultsFor individual template) :
    x.predicate ≠ .iri Rdf.type ∧ x.object.isIndividual = false := by
  obtain ⟨-, -, ⟨l, hl⟩, p, hp, hreserved, -⟩ := hx
  constructor
  · rw [hp]
    intro htype
    obtain rfl := Term.iri.inj htype
    exact absurd hreserved (by decide)
  · rw [hl]
    rfl

end Pass

namespace Course

variable {pass : Pass} {d : Accepted} {x : Triple}

/-- What is translated is known or a membership. -/
theorem translated_cases (c : Course pass d) (hx : x ∈ d.translated) :
    x ∈ pass.knowledge.store.triples ∨ x.predicate = .iri Rdf.type := by
  -- what the translator finds of subjects and of objects is known or a membership
  have hfound : ∀ {i t : Term}, x ∈ pass.foundFor c.finished i t →
      x ∈ pass.knowledge.store.triples ∨ x.predicate = .iri Rdf.type := by
    intro i t h
    rcases (Pass.backs_of_mem_foundFor c.reaches_finished h).told with htold | ⟨htype, -⟩
    · exact Or.inl htold
    · exact Or.inr htype
  obtain ⟨-, ⟨i, t, -, h⟩ | ⟨s, m, o, t, -, -, h⟩⟩ := (c.contents.mem_translated x).mp hx
  · exact hfound h
  · rcases h with ⟨-, hcopied⟩ | ⟨profile, -, -, h⟩
    · exact Or.inr (Pass.predicate_of_mem_copiedTypes hcopied)
    · exact hfound h

/-- What an accepted document holds is of the instance, a default value or translated. -/
theorem document_cases (c : Course pass d) (hx : x ∈ d.document.triples) :
    x ∈ pass.candidate.store.triples ∨
      (x.predicate ≠ .iri Rdf.type ∧ x.object.isIndividual = false) ∨ x ∈ d.translated := by
  rcases (c.contents.mem_document x).mp hx with h | ⟨-, h⟩ | h
  · exact Or.inl h
  · rcases h with h | ⟨i, t, -, -, h⟩ | ⟨s, m, o, t, -, -, h⟩
    · exact Or.inr (Or.inl (Pass.literal_of_mem_defaultsFor h))
    · exact Or.inr (Or.inl (Pass.literal_of_mem_defaultsFor h))
    · exact Or.inr (Or.inl (Pass.literal_of_mem_defaultsFor h))
  · exact Or.inr (Or.inr h)

/-- An individual whose classes the pass has not changed is told no new class by a store that holds
what was known and the accepted document. -/
theorem addsNoClass (c : Course pass d) (hpass : pass.Imports) {output : Store} {a : Term}
    (houtput : ∀ x ∈ output.triples, x ∈ pass.knowledge.store.triples ∨ x ∈ d.document.triples)
    (ha : ¬ d.Retypes pass.knowledge.store a) :
    pass.knowledge.store.AddsNoClass output a where
  types := by
    intro b hb
    have hknown : ⟨a, .iri Rdf.type, b⟩ ∈ pass.knowledge.store.triples →
        b ∈ pass.knowledge.store.typeClosure a :=
      fun h => Store.mem_typeClosure_of_mem_types (Store.mem_types.mpr h)
    rcases houtput _ (Store.mem_types.mp hb) with h | h
    · exact hknown h
    · rcases c.document_cases h with h | ⟨hne, -⟩ | h
      · exact hknown (hpass.candidate h)
      · exact absurd rfl hne
      · by_contra hnew
        exact ha (.membership b h hnew)
  others := by
    intro x hx
    by_cases hknown : x ∈ pass.knowledge.store.triples
    · exact Or.inl hknown
    have hdocument := (houtput x hx).resolve_left hknown
    rcases c.document_cases hdocument with h | ⟨-, hliteral⟩ | h
    · exact absurd (hpass.candidate h) hknown
    · exact Or.inr (Or.inr ⟨hliteral, fun htype => ha (.literal x hdocument hknown hliteral htype)⟩)
    · exact Or.inr (Or.inl ((c.translated_cases h).resolve_left hknown))

end Course

/-- An accepted document is consistent, with the ontology and the template, exactly if no individual
clashes whose classes the pass itself has changed. -/
theorem consistent_iff_of_conform? (kb kb' : KnowledgeBase) (candidate template : Document)
    (options : Options) (d : Accepted)
    (h : kb.conform? candidate template options = some (.ok d, kb')) :
    ((kb.ontology.merge d.document).merge template.store).checkConsistency = .ok () ↔
      ∀ a, d.Retypes ((kb.ontology.merge candidate.store).merge template.store) a →
        ¬ ((kb.ontology.merge d.document).merge template.store).Clashes a := by
  rw [Store.checkConsistency_eq_ok_iff]
  constructor
  · exact fun hconsistent a _ => hconsistent a
  · intro hretyped a hclash
    have hchecked := checked_of_conform? h
    obtain ⟨c⟩ := Pass.nonempty_course hchecked
    have hknown := Store.checkConsistency_eq_ok_iff.mp (Pass.checked_ok hchecked).1 a
    by_cases ha : d.Retypes ((kb.ontology.merge candidate.store).merge template.store) a
    · exact hretyped a ha hclash
    · refine hknown ((c.addsNoClass (imports_merge _ _ _ _ _) ?_ ha).clashes hclash)
      intro x hx
      simp only [Store.mem_merge] at hx ⊢
      rcases hx with (hx | hx) | hx
      · exact Or.inl (Or.inl (Or.inl hx))
      · exact Or.inr hx
      · exact Or.inl (Or.inr hx)

/-! ### One object with disjoint types

The two subjects of the instance share an object of which nothing is said. Those of the template
have an object each, of two classes that the ontology tells to be disjoint. -/

namespace DisjointTypes

def ontology : Store := .ofList [⟨.iri ⟨"A"⟩, .iri Owl.disjointWith, .iri ⟨"B"⟩⟩]

def candidate : Document where
  store := .ofList
    [⟨.iri ⟨"r"⟩, .iri Protocol.hasGraph, .iri ⟨"g"⟩⟩,
      ⟨.iri ⟨"g"⟩, .iri Protocol.hasSubject, .iri ⟨"x"⟩⟩,
      ⟨.iri ⟨"g"⟩, .iri Protocol.hasSubject, .iri ⟨"y"⟩⟩,
      ⟨.iri ⟨"x"⟩, .iri ⟨"p"⟩, .iri ⟨"o"⟩⟩,
      ⟨.iri ⟨"y"⟩, .iri ⟨"p"⟩, .iri ⟨"o"⟩⟩]
  resource := .iri ⟨"r"⟩

def template : Document where
  store := .ofList
    [⟨.iri ⟨"r"⟩, .iri Protocol.hasGraph, .iri ⟨"h"⟩⟩,
      ⟨.iri ⟨"h"⟩, .iri Protocol.hasSubject, .iri ⟨"t"⟩⟩,
      ⟨.iri ⟨"h"⟩, .iri Protocol.hasSubject, .iri ⟨"u"⟩⟩,
      ⟨.iri ⟨"t"⟩, .iri ⟨"p"⟩, .iri ⟨"a"⟩⟩,
      ⟨.iri ⟨"u"⟩, .iri ⟨"p"⟩, .iri ⟨"b"⟩⟩,
      ⟨.iri ⟨"a"⟩, .iri Rdf.type, .iri ⟨"A"⟩⟩,
      ⟨.iri ⟨"b"⟩, .iri Rdf.type, .iri ⟨"B"⟩⟩]
  resource := .iri ⟨"r"⟩

def pass : Pass :=
  ⟨⟨(ontology.merge candidate.store).merge template.store, 2⟩, candidate, template,
    SecondGraph.options⟩

/-- Each class has one member, and no class is above it. -/
theorem mem_typeClosure {i c : Term} (hc : c ∈ pass.knowledge.store.typeClosure i) :
    i = .iri ⟨"a"⟩ ∧ c = .iri ⟨"A"⟩ ∨ i = .iri ⟨"b"⟩ ∧ c = .iri ⟨"B"⟩ := by
  have htypes : ∀ t ∈ pass.knowledge.store.triples, t.predicate = .iri Rdf.type →
      t.subject = .iri ⟨"a"⟩ ∧ t.object = .iri ⟨"A"⟩ ∨
        t.subject = .iri ⟨"b"⟩ ∧ t.object = .iri ⟨"B"⟩ := by decide +kernel
  have hA : pass.knowledge.store.toldSupers (.iri ⟨"A"⟩) = [.iri ⟨"A"⟩] :=
    Store.toldSupers_eq_singleton (by decide +kernel)
  have hB : pass.knowledge.store.toldSupers (.iri ⟨"B"⟩) = [.iri ⟨"B"⟩] :=
    Store.toldSupers_eq_singleton (by decide +kernel)
  obtain ⟨b, hb, hbc⟩ := Store.mem_typeClosure.mp hc
  rcases htypes _ (Store.mem_types.mp hb) rfl with ⟨hi, rfl⟩ | ⟨hi, rfl⟩
  · rw [hA, List.mem_singleton] at hbc
    exact Or.inl ⟨hi, hbc⟩
  · rw [hB, List.mem_singleton] at hbc
    exact Or.inr ⟨hi, hbc⟩

theorem consistent : pass.knowledge.store.checkConsistency = .ok () := by
  have hdisjoint : ∀ t ∈ pass.knowledge.store.triples, t.predicate = .iri Owl.disjointWith →
      t.subject = .iri ⟨"A"⟩ ∧ t.object = .iri ⟨"B"⟩ := by decide +kernel
  rw [Store.checkConsistency_eq_ok_iff]
  rintro i (hnothing | ⟨c, hc, d, hd, hcd⟩)
  · rcases mem_typeClosure hnothing with ⟨-, h⟩ | ⟨-, h⟩
    · exact absurd h (by decide)
    · exact absurd h (by decide)
  · obtain ⟨rfl, rfl⟩ : c = .iri ⟨"A"⟩ ∧ d = .iri ⟨"B"⟩ := hdisjoint _ hcd rfl
    -- an individual of both classes would be `a` and `b`
    rcases mem_typeClosure hc with ⟨rfl, -⟩ | ⟨-, h⟩
    · rcases mem_typeClosure hd with ⟨-, h⟩ | ⟨h, -⟩
      · exact absurd h (by decide)
      · exact absurd h (by decide)
    · exact absurd h (by decide)

theorem accepted : ∃ d, pass.checked = .ok d ∧ d.document.triples =
    candidate.store.triples ++ [⟨.iri ⟨"o"⟩, .iri Rdf.type, .iri ⟨"A"⟩⟩,
      ⟨.iri ⟨"o"⟩, .iri Rdf.type, .iri ⟨"B"⟩⟩] :=
  Pass.exists_checked_eq_ok consistent (by decide +kernel)

theorem conform?_accepted : ∃ d kb',
    (KnowledgeBase.ofOntology ontology 2).conform? candidate template SecondGraph.options =
        some (.ok d, kb') ∧
      d.document.triples = candidate.store.triples ++ [⟨.iri ⟨"o"⟩, .iri Rdf.type, .iri ⟨"A"⟩⟩,
        ⟨.iri ⟨"o"⟩, .iri Rdf.type, .iri ⟨"B"⟩⟩] := by
  obtain ⟨d, hd, hdocument⟩ := accepted
  have hconform :=
    KnowledgeBase.conform?_ofOntology ontology 2 candidate template SecondGraph.options
  rw [show conform ontology 2 candidate template SecondGraph.options = pass.checked from rfl,
    hd] at hconform
  obtain ⟨⟨result, kb'⟩, hkb', hresult⟩ := Option.map_eq_some_iff.mp hconform
  obtain rfl : result = .ok d := hresult
  exact ⟨d, kb', hkb', hdocument⟩

/-- The object is given both classes. -/
theorem clashes {d : Accepted} (h : d.document.triples = candidate.store.triples ++
    [⟨.iri ⟨"o"⟩, .iri Rdf.type, .iri ⟨"A"⟩⟩, ⟨.iri ⟨"o"⟩, .iri Rdf.type, .iri ⟨"B"⟩⟩]) :
    ((ontology.merge d.document).merge template.store).Clashes (.iri ⟨"o"⟩) := by
  have hmem : ∀ t, t ∈ ontology.triples ∨ t ∈ d.document.triples →
      t ∈ ((ontology.merge d.document).merge template.store).triples :=
    fun t ht => Store.mem_merge.mpr (Or.inl (Store.mem_merge.mpr ht))
  have htype : ∀ c, ⟨.iri ⟨"o"⟩, .iri Rdf.type, c⟩ ∈ d.document.triples →
      c ∈ ((ontology.merge d.document).merge template.store).typeClosure (.iri ⟨"o"⟩) :=
    fun c hc => Store.mem_typeClosure_of_mem_types (Store.mem_types.mpr (hmem _ (Or.inr hc)))
  refine Or.inr ⟨.iri ⟨"A"⟩, htype _ ?_, .iri ⟨"B"⟩, htype _ ?_, hmem _ (Or.inl ?_)⟩
  · rw [h]
    simp
  · rw [h]
    simp
  · decide

theorem not_forall_consistent : ¬ ∀ (kb kb' : KnowledgeBase) (candidate template : Document)
    (options : Options) (d : Accepted),
    kb.conform? candidate template options = some (.ok d, kb') →
      ((kb.ontology.merge d.document).merge template.store).checkConsistency = .ok () := by
  intro h
  obtain ⟨d, kb', hd, hdocument⟩ := conform?_accepted
  have hconsistent : ((ontology.merge d.document).merge template.store).checkConsistency = .ok () :=
    h (.ofOntology ontology 2) kb' candidate template SecondGraph.options d hd
  exact Store.checkConsistency_eq_ok_iff.mp hconsistent (.iri ⟨"o"⟩) (clashes hdocument)

theorem consistent_iff_of_disjoint_types : ∃ d kb',
    (KnowledgeBase.ofOntology ontology 2).conform? candidate template SecondGraph.options =
        some (.ok d, kb') ∧
      (((ontology.merge d.document).merge template.store).checkConsistency = .ok () ↔
        ∀ a, d.Retypes pass.knowledge.store a →
          ¬ ((ontology.merge d.document).merge template.store).Clashes a) := by
  obtain ⟨d, kb', hd, -⟩ := conform?_accepted
  exact ⟨d, kb', hd, consistent_iff_of_conform? (.ofOntology ontology 2) kb' candidate template
    SecondGraph.options d hd⟩

end DisjointTypes

end GraphConformance.Conformance
