import GraphConformance.Proofs.Conformance.Steps
import GraphConformance.Proofs.Knowledge.Consistency

/-!
# Acceptance means conformance

What an accepted document promises is written down as `Conforms`, without reference to the progress
of the pass. The parts of a pass are taken apart from the outside in (`checked_ok`, `run_ok`,
`tryGraphs_ok`, `finish_ok`), and `conforms_of_conform?` puts what they promise together.
-/

set_option autoImplicit false

namespace GraphConformance

open Vocabulary

namespace Conformance

/-- Graphs of the template whose subjects could not be matched, one after another. What they
collected is taken back each time. -/
inductive Pass.Skips (pass : Pass) (graph : Term) : List Term → Progress → Progress → Prop where
  | nil (p : Progress) : Skips pass graph [] p p
  | cons {templateGraph : Term} {rest : List Term} {failure : Failure} {p q s : Progress}
      (h : pass.matchSubjects graph templateGraph p = (.error failure, q))
      (hrest : Skips pass graph rest (q.rollBack p) s) :
      Skips pass graph (templateGraph :: rest) p s

/-- What the acceptance of a document means; `graph` is the graph of the instance. -/
structure Conforms (pass : Pass) (graph : Term) (d : Accepted) : Prop where
  consistent : pass.knowledge.store.checkConsistency = .ok ()
  resource : pass.knowledge.accepts pass.options.resourceKind pass.candidate.resource
    pass.template.resource = true
  sameResource : pass.options.strictResource = true →
    pass.candidate.resource = pass.template.resource
  firstGraph : pass.candidate.graphs.head? = some graph
  /-- The subjects of all earlier graphs of the template fail to match. -/
  firstMatch : ∃ before after p q s, pass.template.graphs = before ++ d.graph :: after ∧
    pass.checkResource .start = (.ok (), p) ∧ pass.Skips graph before p q ∧
      pass.matchSubjects graph d.graph q = (.ok d.subjects, s)
  /-- Each template subject has one required instance subject, and pairs are accepted. -/
  subjects : d.subjects.IsMapping (pass.knowledge.accepts pass.options.subjectKind)
    (pass.candidate.subjects graph) (pass.template.subjects d.graph)
  translated : pass.options.translate = true → ∀ i t, d.subjects.get? i = some (.required t) →
    ∃ statements, pass.Translated i t statements ∧ statements ⊆ d.translated
  /-- Subjects with mapped objects are mapped subjects, and their objects conform. -/
  objects : ∀ s m, d.objects.get? s = some m →
    ∃ t, d.subjects.template? s = some t ∧ pass.ObjectsConform s t m d.translated
  /-- The objects of some subject are mapped, unless no subject is. -/
  someObjects : ∀ i t, d.subjects.template? i = some t → ∃ s m, d.objects.get? s = some m

namespace Pass

variable {pass : Pass} {graph : Term} {d : Accepted}

/-! ## The parts of a pass -/

theorem checked_ok (h : pass.checked = .ok d) :
    pass.knowledge.store.checkConsistency = .ok () ∧ pass.run = .ok d := by
  unfold checked at h
  split at h
  · exact absurd h (by simp)
  · rename_i hconsistent
    exact ⟨hconsistent, h⟩

/-- Over consistent knowledge, what is computed of a run that accepts is so of an accepted
document. -/
theorem exists_checked_eq_ok {α : Type} {summary : Accepted → α} {value : α}
    (hconsistent : pass.knowledge.store.checkConsistency = .ok ())
    (h : pass.run.toOption.map summary = some value) :
    ∃ d, pass.checked = .ok d ∧ summary d = value := by
  cases hrun : pass.run with
  | error failure =>
    rw [hrun] at h
    cases h
  | ok d =>
    rw [hrun] at h
    refine ⟨d, ?_, Option.some.inj h⟩
    rw [checked, hconsistent]
    exact hrun

theorem checkResource_ok {p q : Progress} (h : pass.checkResource p = (.ok (), q)) :
    (pass.options.strictResource = true →
        pass.candidate.resource = pass.template.resource) ∧
      pass.knowledge.accepts pass.options.resourceKind pass.candidate.resource
          pass.template.resource = true ∧
      q = pass.addDefaults pass.candidate.resource pass.template.resource p := by
  unfold checkResource at h
  dsimp only at h
  split at h
  · exact absurd (Prod.mk.inj h).1 (by simp)
  · rename_i hsame
    split at h
    · rename_i haccepts
      refine ⟨?_, haccepts, (Prod.mk.inj h).2.symm⟩
      intro hstrict
      by_contra hne
      exact hsame ⟨hne, hstrict⟩
    · exact absurd (Prod.mk.inj h).1 (by simp)

theorem run_ok (h : pass.run = .ok d) :
    ∃ p graph, pass.checkResource .start = (.ok (), p) ∧
      pass.candidate.graphs.head? = some graph ∧
      pass.tryGraphs graph pass.template.graphs
        (missingGraph "template declares no graph") p = .ok d := by
  unfold run at h
  split at h
  · exact absurd h (by simp)
  · rename_i p hp
    split at h
    · exact absurd h (by simp)
    · rename_i graph rest hgraphs
      exact ⟨p, graph, hp, by rw [hgraphs]; rfl, h⟩

theorem Skips.reaches {templateGraphs : List Term} {p q : Progress} (hp : pass.Reaches p)
    (h : pass.Skips graph templateGraphs p q) : pass.Reaches q := by
  induction h with
  | nil p => exact hp
  | cons h hrest ih => exact ih (hp.trans ((runs_matchSubjects h).rollBack _))

theorem tryGraphs_ok {templateGraphs : List Term} {failure : Failure} {p : Progress}
    (h : pass.tryGraphs graph templateGraphs failure p = .ok d) :
    ∃ before templateGraph after q m s, templateGraphs = before ++ templateGraph :: after ∧
      pass.Skips graph before p q ∧ pass.matchSubjects graph templateGraph q = (.ok m, s) ∧
      pass.finish templateGraph m s = .ok d := by
  induction templateGraphs generalizing failure p with
  | nil => exact absurd h (by simp [tryGraphs])
  | cons templateGraph rest ih =>
    rw [tryGraphs] at h
    split at h
    -- either this graph decides, or it is skipped and the rest decides
    · rename_i m s hm
      exact ⟨[], templateGraph, rest, p, m, s, rfl, .nil p, hm, h⟩
    · rename_i failure' s hfailed
      obtain ⟨before, found, after, q, m, s', rfl, hskips, hm, hfinish⟩ := ih h
      exact ⟨templateGraph :: before, found, after, q, m, s', rfl, .cons hfailed hskips, hm,
        hfinish⟩

theorem finish_ok {templateGraph : Term} {m : Mapping} {p : Progress}
    (h : pass.finish templateGraph m p = .ok d) :
    ∃ objects failure q, pass.matchObjects m.pairs ∅ none p = ((objects, failure), q) ∧
      (objects.entries = [] → failure = none) ∧ d = pass.commit templateGraph m objects q := by
  unfold finish at h
  split at h
  · exact absurd h (by simp)
  · rename_i objects failure q hnot hq
    refine ⟨objects, failure, q, hq, ?_, (Except.ok.inj h).symm⟩
    -- a failure without any mapped object would have been answered
    intro hempty
    cases failure with
    | none => rfl
    | some failure =>
      obtain ⟨entries, hnodup⟩ := objects
      obtain rfl : entries = [] := hempty
      exact (hnot hnodup failure rfl rfl).elim

end Pass

/-! ## Acceptance -/

theorem conforms_of_checked {pass : Pass} {d : Accepted} (h : pass.checked = .ok d) :
    ∃ graph, Conforms pass graph d := by
  obtain ⟨hconsistent, hrun⟩ := Pass.checked_ok h
  obtain ⟨p, graph, hresource, hgraph, htry⟩ := Pass.run_ok hrun
  obtain ⟨hsame, haccepts, hp⟩ := Pass.checkResource_ok hresource
  obtain ⟨before, templateGraph, after, q, m, s, hgraphs, hskips, hm, hfinish⟩ :=
    Pass.tryGraphs_ok htry
  obtain ⟨objects, failure, s', hobjects, hnone, rfl⟩ := Pass.finish_ok hfinish
  obtain ⟨hfind, hsubjects⟩ := Pass.matchSubjects_ok hm
  -- each part starts from a progress that a new translator can be run to
  have hreaches : pass.Reaches p := by
    rw [hp]
    exact pass.runs_addDefaults _ _ _
  have hreaches' := hskips.reaches hreaches
  obtain ⟨-, htranslated⟩ := Pass.passSubjects_ok hreaches' hsubjects
  have hmapped := Pass.matchObjects_spec (hreaches'.trans (Pass.runs_matchSubjects hm)) hobjects
  refine ⟨graph, ?_⟩
  constructor
  · exact hconsistent
  · exact haccepts
  · exact hsame
  · exact hgraph
  · exact ⟨before, after, p, q, s, hgraphs, hresource, hskips, hm⟩
  · exact Mapping.isMapping_of_find? hfind
  · intro hon i t hit
    have hpair := Mapping.mem_pairs_iff.mpr (Mapping.template?_of_required hit)
    obtain ⟨statements, hstatements, hin⟩ :=
      htranslated hon i t hpair (Mapping.isRequired_of_required hit)
    exact ⟨statements, hstatements, List.Subset.trans hin hmapped.kept⟩
  · intro subject mapping hsubject
    rcases hmapped.conform subject mapping hsubject with hempty | ⟨t, ht, hconform⟩
    · exact absurd hempty (by simp [EmptyCollection.emptyCollection])
    · exact ⟨t, Mapping.mem_pairs_iff.mp ht, hconform⟩
  · intro i t hit
    have hpair : (i, t) ∈ m.pairs := Mapping.mem_pairs_iff.mpr hit
    -- without mapped objects there was no failure either, so there was no pair to fail
    by_contra hno
    have hentries : objects.entries = [] := by
      rw [List.eq_nil_iff_forall_not_mem]
      rintro ⟨subject, mapping⟩ hmem
      exact hno ⟨subject, mapping, Table.mem_entries_iff.mp hmem⟩
    have hpairs := (hmapped.nonempty hentries (hnone hentries)).1
    rw [hpairs] at hpair
    exact absurd hpair (by simp)

/-- What a knowledge base accepts conforms, over its ontology with both documents. -/
theorem conforms_of_conform? (kb kb' : KnowledgeBase) (candidate template : Document)
    (options : Options) (d : Accepted)
    (h : kb.conform? candidate template options = some (.ok d, kb')) :
    ∃ graph, Conforms
      ⟨⟨(kb.ontology.merge candidate.store).merge template.store, kb.maxDepth⟩, candidate,
        template, options⟩ graph d := by
  unfold KnowledgeBase.conform? KnowledgeBase.withImported? KnowledgeBase.importAll? at h
  split at h
  · exact absurd h (by simp)
  · obtain ⟨⟨ticket, imported⟩, himported, hresult⟩ := Option.map_eq_some_iff.mp h
    obtain ⟨-, rfl⟩ := Prod.mk.inj (Option.some.inj himported)
    exact conforms_of_checked (Prod.mk.inj hresult).1

/-! ### The second graph

The first graph of the template has two subjects, and the instance only one. The second graph has
one subject; its object has a type, of which the instance says nothing. -/

namespace SecondGraph

def candidate : Document where
  store := .ofList
    [⟨.iri ⟨"r"⟩, .iri Protocol.hasGraph, .iri ⟨"g"⟩⟩,
      ⟨.iri ⟨"g"⟩, .iri Protocol.hasSubject, .iri ⟨"s"⟩⟩,
      ⟨.iri ⟨"s"⟩, .iri Rdf.type, .iri ⟨"T"⟩⟩,
      ⟨.iri ⟨"s"⟩, .iri ⟨"p"⟩, .iri ⟨"o"⟩⟩]
  resource := .iri ⟨"r"⟩

def template : Document where
  store := .ofList
    [⟨.iri ⟨"r"⟩, .iri Protocol.hasGraph, .iri ⟨"h"⟩⟩,
      ⟨.iri ⟨"r"⟩, .iri Protocol.hasGraph, .iri ⟨"k"⟩⟩,
      ⟨.iri ⟨"h"⟩, .iri Protocol.hasSubject, .iri ⟨"a"⟩⟩,
      ⟨.iri ⟨"h"⟩, .iri Protocol.hasSubject, .iri ⟨"b"⟩⟩,
      ⟨.iri ⟨"k"⟩, .iri Protocol.hasSubject, .iri ⟨"t"⟩⟩,
      ⟨.iri ⟨"t"⟩, .iri Rdf.type, .iri ⟨"T"⟩⟩,
      ⟨.iri ⟨"t"⟩, .iri ⟨"p"⟩, .iri ⟨"u"⟩⟩,
      ⟨.iri ⟨"u"⟩, .iri Rdf.type, .iri ⟨"U"⟩⟩]
  resource := .iri ⟨"r"⟩

def options : Options where
  resourceKind := .any
  subjectKind := .any
  objectKind := .any
  translate := true
  closedWorldDefaults := true
  strictResource := true

def pass : Pass :=
  ⟨⟨(Store.merge ∅ candidate.store).merge template.store, 2⟩, candidate, template, options⟩

theorem accepted : ∃ d, pass.checked = .ok d ∧ d.graph = .iri ⟨"k"⟩ :=
  Pass.exists_checked_eq_ok (Store.checkConsistency_of_silent (by decide +kernel))
    (by decide +kernel)

/-- The instance is accepted by the second graph of the template and conforms. -/
theorem conforms_of_second_graph :
    ∃ d kb', (KnowledgeBase.ofOntology ∅ 2).conform? candidate template options =
        some (.ok d, kb') ∧
      d.graph = .iri ⟨"k"⟩ ∧ ∃ graph, Conforms pass graph d := by
  obtain ⟨d, hd, hgraph⟩ := accepted
  have hconform := KnowledgeBase.conform?_ofOntology ∅ 2 candidate template options
  rw [show conform ∅ 2 candidate template options = pass.checked from rfl, hd] at hconform
  obtain ⟨⟨result, kb'⟩, hkb', hresult⟩ := Option.map_eq_some_iff.mp hconform
  obtain rfl : result = .ok d := hresult
  exact ⟨d, kb', hkb', hgraph, conforms_of_conform? _ _ _ _ _ _ hkb'⟩

end SecondGraph

end Conformance

end GraphConformance
