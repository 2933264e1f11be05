import GraphConformance.Conformance.Pass
import GraphConformance.Proofs.Renaming.Evidence
import GraphConformance.Proofs.Renaming.Mapping

/-!
# Renamed documents

Whether an instance conforms to a template does not depend on how blank nodes are numbered: when the
ontology and both documents are renamed at once, the pass accepts as before, and what it accepts is
renamed. Two passes over renamed documents collect renamed statements and remember renamed verdicts
(`Progress.Renamed`); each step answers alike and leaves such progress (`StepsAlike`), from the
defaults of a pair up to the whole pass (`endAlike_checked`).
-/

set_option autoImplicit false

namespace GraphConformance

open Evidence Vocabulary

/-! ## Documents -/

/-- The second document is the first over a renamed store. -/
structure Document.Renamed (f : BlankNode → BlankNode) (d d' : Document) : Prop where
  store : d.store.Renamed f d'.store
  resource : d'.resource = d.resource.rename f

/-- The document with other nodes in place of its blank nodes. -/
def Document.rename (f : BlankNode → BlankNode) (d : Document) : Document :=
  ⟨d.store.rename f, d.resource.rename f⟩

variable {ρ : BlankNode ↪ BlankNode}

namespace Document

theorem renamed_rename (ρ : BlankNode ↪ BlankNode) (d : Document) : d.Renamed ρ (d.rename ρ) :=
  ⟨Store.renamed_rename ρ d.store, rfl⟩

variable {d d' : Document} (h : d.Renamed ρ d')

include h

theorem Renamed.graphs : d'.graphs = d.graphs.map (Term.rename ρ) := by
  rw [Document.graphs, h.resource, h.store.objects, Distinct.dedup_map (Term.rename_injective ρ),
    Document.graphs]

theorem Renamed.subjects (graph : Term) :
    d'.subjects (graph.rename ρ) = (d.subjects graph).map (Term.rename ρ) := by
  rw [Document.subjects, h.store.objects, Distinct.dedup_map (Term.rename_injective ρ),
    Document.subjects]

theorem Renamed.objects (subject : Term) :
    d'.objects (subject.rename ρ) = (d.objects subject).map (Term.rename ρ) := by
  rw [Document.objects, Document.objects, h.store.outgoing,
    ← Distinct.dedup_map (Term.rename_injective ρ)]
  simp only [List.filter_map, List.map_map, Function.comp_def, Edge.rename,
    Term.isReserved_rename, Term.isIndividual_rename]

end Document

theorem Store.Renamed.candidates {s s' : Store} (h : s.Renamed ρ s') :
    Document.candidates s' = (Document.candidates s).map (Term.rename ρ) := by
  have htyped : Distinct.dedup (s'.subjects Rdf.type (.iri Protocol.resource)) =
      (Distinct.dedup (s.subjects Rdf.type (.iri Protocol.resource))).map (Term.rename ρ) := by
    rw [← Distinct.dedup_map (Term.rename_injective ρ), ← h.subjects, Term.rename_iri]
  have hgraph : (s'.triples.filter (·.predicate = .iri Protocol.hasGraph)).map Triple.subject =
      ((s.triples.filter (·.predicate = .iri Protocol.hasGraph)).map Triple.subject).map
        (Term.rename ρ) := by
    rw [h, List.filter_map, List.map_map, List.map_map]
    simp only [Function.comp_def, Triple.rename, Term.rename_eq_iri]
  rw [Document.candidates, Document.candidates, htyped, hgraph,
    Distinct.dedup_map (Term.rename_injective ρ)]
  cases Distinct.dedup (s.subjects Rdf.type (.iri Protocol.resource)) with
  | nil => rfl
  | cons typed rest => rfl

theorem Document.endAlike_discover {s s' : Store} (h : s.Renamed ρ s') :
    EndAlike Eq (Document.Renamed ρ) (discover s) (discover s') := by
  rw [discover, discover, h.candidates]
  cases candidates s with
  | nil => exact .error rfl
  | cons resource rest =>
    cases rest with
    | nil => exact .ok ⟨h, rfl⟩
    | cons other rest =>
      exact .error (congrArg DocumentError.ambiguousResource (List.length_map _).symm)

namespace Conformance

/-! ## Passes side by side -/

/-- The second pass is the first over renamed documents. -/
structure Pass.Renamed (f : BlankNode → BlankNode) (pass pass' : Pass) : Prop where
  knowledge : pass.knowledge.Renamed f pass'.knowledge
  candidate : pass.candidate.Renamed f pass'.candidate
  template : pass.template.Renamed f pass'.template
  options : pass'.options = pass.options

/-- The second pass has collected the renamed statements of the first. -/
structure Progress.Renamed (f : BlankNode → BlankNode) (p p' : Progress) : Prop where
  defaults : p'.defaults = p.defaults.map (Triple.rename f)
  translated : p'.translated = p.translated.map (Triple.rename f)
  translator : p.translator.Renamed f p'.translator

/-- What is accepted the second time is what was accepted the first time, renamed and in the same
order. -/
structure Accepted.Renamed (f : BlankNode → BlankNode) (a a' : Accepted) : Prop where
  document : a.document.Renamed f a'.document
  translated : a'.translated = a.translated.map (Triple.rename f)
  graph : a'.graph = a.graph.rename f
  subjects : Mapping.Renamed f a.subjects a'.subjects
  objects : a.objects.Renamed (Term.rename f) (Mapping.Renamed f) a'.objects

/-- Two steps that answer alike and leave such progress. -/
inductive StepsAlike (f : BlankNode → BlankNode) {α : Type} (A : α → α → Prop) :
    Step α → Step α → Prop
  | ok {a a' : α} {p p' : Progress} (ha : A a a') (hp : p.Renamed f p') :
    StepsAlike f A (.ok a, p) (.ok a', p')
  | error {e e' : Failure} {p p' : Progress} (he : e.Renamed f e') (hp : p.Renamed f p') :
    StepsAlike f A (.error e, p) (.error e', p')

theorem Progress.renamed_start (f : BlankNode → BlankNode) : Progress.start.Renamed f .start :=
  ⟨rfl, rfl, Translator.renamed_new f⟩

theorem Progress.Renamed.rollBack {p p' q q' : Progress} (hq : q.Renamed ρ q')
    (hp : p.Renamed ρ p') : (q.rollBack p).Renamed ρ (q'.rollBack p') :=
  ⟨hp.defaults, hp.translated, hq.translator⟩

theorem Progress.Renamed.addTranslated {p p' : Progress} (hp : p.Renamed ρ p') (ts : List Triple) :
    Progress.Renamed ρ { p with translated := Distinct.union p.translated ts }
      { p' with translated := Distinct.union p'.translated (ts.map (Triple.rename ρ)) } := by
  refine ⟨hp.defaults, ?_, hp.translator⟩
  dsimp only
  rw [hp.translated, Distinct.union_map (Triple.rename_injective ρ)]

theorem renamed_refused (x : Term) {e e' : Knowledge.QueryError}
    (h : Knowledge.QueryError.Renamed ρ e e') :
    Failure.Renamed ρ (refused x e) (refused (x.rename ρ) e') := by
  cases Failure.renamed_ofQueryError .restriction h with
  | intro hstage hkind _ hclass hexplanation =>
    exact .intro hstage hkind rfl hclass hexplanation

namespace Pass

variable {pass pass' : Pass} (h : pass.Renamed ρ pass') {p p' : Progress} (hp : p.Renamed ρ p')

include h

/-! ## Defaults and memberships -/

theorem Renamed.isDefault (x : Term) (edge : Edge) :
    pass'.isDefault (x.rename ρ) (Edge.rename ρ edge) = pass.isDefault x edge := by
  obtain ⟨property, value⟩ := edge
  cases property with
  | iri i =>
    cases value with
    | literal l =>
      change (!Vocabulary.isReserved i && (pass'.candidate.store.object? (x.rename ρ) i).isNone) =
        (!Vocabulary.isReserved i && (pass.candidate.store.object? x i).isNone)
      rw [h.candidate.store.object?, Option.isNone_map]
    | _ => rfl
  | _ => cases value <;> rfl

theorem Renamed.defaults (x t : Term) :
    pass'.defaults (x.rename ρ) (t.rename ρ) = (pass.defaults x t).map (Triple.rename ρ) := by
  rw [Pass.defaults, h.template.store.outgoing, List.filter_map, List.map_map, Pass.defaults,
    List.map_map]
  simp only [Function.comp_def, h.isDefault]
  rfl

include hp

theorem renamed_addDefaults (x t : Term) :
    (pass.addDefaults x t p).Renamed ρ (pass'.addDefaults (x.rename ρ) (t.rename ρ) p') := by
  rw [addDefaults, addDefaults, h.options]
  split
  · refine ⟨?_, hp.translated, hp.translator⟩
    dsimp only
    rw [hp.defaults, h.defaults, Distinct.union_map (Triple.rename_injective ρ)]
  · exact hp

theorem stepsAlike_translate (x t : Term) :
    StepsAlike ρ (fun ts ts' => ts' = ts.map (Triple.rename ρ)) (pass.translate x t p)
      (pass'.translate (x.rename ρ) (t.rename ρ) p') := by
  have hprofile := h.knowledge.typeProfile t
  rw [translate, translate]
  generalize pass.knowledge.typeProfile t = profile at hprofile ⊢
  generalize pass'.knowledge.typeProfile (t.rename ρ) = profile' at hprofile ⊢
  cases hprofile with
  | error he => exact .error (renamed_refused t he) hp
  | @ok target _ htarget =>
    subst htarget
    obtain ⟨hverdict, htranslator⟩ := hp.translator.translate h.knowledge.reasoner target x
    dsimp only
    generalize p.translator.translate pass.knowledge.reasoner target x = answer
      at hverdict htranslator ⊢
    generalize p'.translator.translate pass'.knowledge.reasoner (target.rename ρ) (x.rename ρ) =
      answer' at hverdict htranslator ⊢
    obtain ⟨verdict, translator⟩ := answer
    obtain ⟨verdict', translator'⟩ := answer'
    cases hverdict with
    | ok hfound => exact .ok hfound ⟨hp.defaults, hp.translated, htranslator⟩
    | error hfailure => exact .error hfailure ⟨hp.defaults, hp.translated, htranslator⟩

omit hp in
theorem Renamed.copiedTypes (x t : Term) :
    pass'.copiedTypes (x.rename ρ) (t.rename ρ) =
      (pass.copiedTypes x t).map (Triple.rename ρ) := by
  rw [Pass.copiedTypes, Pass.copiedTypes, h.template.store.types, List.filter_map, List.map_map,
    ← Distinct.dedup_map (Triple.rename_injective ρ), List.map_map]
  simp only [Function.comp_def, Term.isReserved_rename, ne_eq, Term.rename_inj]
  rfl

/-! ## Resources and subjects -/

theorem stepsAlike_checkResource :
    StepsAlike ρ (fun _ _ => True) (pass.checkResource p) (pass'.checkResource p') := by
  have haccepts := h.knowledge.accepts pass.options.resourceKind pass.candidate.resource
    pass.template.resource
  simp only [checkResource, h.options, h.candidate.resource, h.template.resource, haccepts, ne_eq,
    Term.rename_inj]
  split
  · refine .error (.intro rfl .resourceMismatch rfl rfl ?_) hp
    exact (((Reworded.same _).append (.term _)).text _).append (.term _)
  · split
    · exact .ok trivial (renamed_addDefaults h hp _ _)
    · refine .error (.intro rfl .resourceMismatch rfl rfl ?_) hp
      exact (((((Reworded.same _).name _).text _).name _).text _).text _

theorem stepsAlike_passSubject (required : Bool) (x t : Term) :
    StepsAlike ρ (fun _ _ => True) (pass.passSubject required x t p)
      (pass'.passSubject required (x.rename ρ) (t.rename ρ) p') := by
  have hfilled := renamed_addDefaults h hp x t
  have hstep := stepsAlike_translate h hfilled x t
  simp only [passSubject, h.options]
  split
  · generalize pass.translate x t (pass.addDefaults x t p) = step at hstep ⊢
    generalize pass'.translate (x.rename ρ) (t.rename ρ)
      (pass'.addDefaults (x.rename ρ) (t.rename ρ) p') = step' at hstep ⊢
    cases hstep with
    | ok hfound hq =>
      subst hfound
      exact .ok trivial (hq.addTranslated _)
    | error hfailure hq =>
      cases required with
      | true => exact .error hfailure hq
      | false =>
        -- skipped: what was added for the subject is taken back on both sides
        exact .ok trivial (hq.rollBack hp)
  · exact .ok trivial hfilled

theorem stepsAlike_passSubjects {mapping mapping' : Mapping}
    (hmapping : Mapping.Renamed ρ mapping mapping') (pairs : List (Term × Term)) :
    StepsAlike ρ (fun _ _ => True) (pass.passSubjects mapping pairs p)
      (pass'.passSubjects mapping' (pairs.map (renameTerms ρ)) p') := by
  induction pairs generalizing p p' with
  | nil => exact .ok trivial hp
  | cons pair rest ih =>
    obtain ⟨x, t⟩ := pair
    have hstep := stepsAlike_passSubject h hp (mapping.isRequired x) x t
    rw [List.map_cons, renameTerms, passSubjects, passSubjects, hmapping.isRequired]
    dsimp only
    generalize pass.passSubject (mapping.isRequired x) x t p = step at hstep ⊢
    generalize pass'.passSubject (mapping.isRequired x) (x.rename ρ) (t.rename ρ) p' = step'
      at hstep ⊢
    cases hstep with
    | ok _ hq => exact ih hq
    | error hfailure hq => exact .error hfailure hq

theorem stepsAlike_matchSubjects (graph templateGraph : Term) :
    StepsAlike ρ (Mapping.Renamed ρ) (pass.matchSubjects graph templateGraph p)
      (pass'.matchSubjects (graph.rename ρ) (templateGraph.rename ρ) p') := by
  have hfind := Mapping.renamed_find? (h.knowledge.accepts pass.options.subjectKind)
    (pass.candidate.subjects graph) (pass.template.subjects templateGraph)
  simp only [matchSubjects, h.options, h.candidate.subjects, h.template.subjects, List.length_map]
  generalize Mapping.find? _ (pass.candidate.subjects graph) _ = found at hfind ⊢
  generalize Mapping.find? _ ((pass.candidate.subjects graph).map (Term.rename ρ)) _ = found'
    at hfind ⊢
  cases hfind with
  | none => exact .error (.intro rfl .structuralMapping rfl rfl (.same _)) hp
  | @some mapping mapping' hmapping =>
    have hstep := stepsAlike_passSubjects h hp hmapping mapping.pairs
    rw [← hmapping.pairs] at hstep
    dsimp only
    generalize pass.passSubjects mapping mapping.pairs p = step at hstep ⊢
    generalize pass'.passSubjects mapping' mapping'.pairs p' = step' at hstep ⊢
    cases hstep with
    | ok _ hq => exact .ok hmapping hq
    | error hfailure hq => exact .error hfailure hq

/-! ## Objects -/

theorem stepsAlike_objectStatements (x t : Term) :
    StepsAlike ρ (fun ts ts' => ts' = ts.map (Triple.rename ρ)) (pass.objectStatements x t p)
      (pass'.objectStatements (x.rename ρ) (t.rename ρ) p') := by
  have hprofile := h.knowledge.typeProfile x
  rw [objectStatements, objectStatements]
  generalize pass.knowledge.typeProfile x = profile at hprofile ⊢
  generalize pass'.knowledge.typeProfile (x.rename ρ) = profile' at hprofile ⊢
  cases hprofile with
  | error he => exact .error (renamed_refused x he) hp
  | ok hprofile =>
    subst hprofile
    simp only [Expression.rename_eq_top]
    split
    · exact .ok (h.copiedTypes x t) hp
    · exact stepsAlike_translate h hp x t

theorem stepsAlike_passObjects (pairs : List (Term × Term)) (ts : List Triple) :
    StepsAlike ρ (fun ts ts' => ts' = ts.map (Triple.rename ρ)) (pass.passObjects pairs ts p)
      (pass'.passObjects (pairs.map (renameTerms ρ)) (ts.map (Triple.rename ρ)) p') := by
  induction pairs generalizing ts p p' with
  | nil => exact .ok rfl hp
  | cons pair rest ih =>
    obtain ⟨x, t⟩ := pair
    have hfilled := renamed_addDefaults h hp x t
    have hstep := stepsAlike_objectStatements h hfilled x t
    rw [List.map_cons, renameTerms, passObjects, passObjects, h.options]
    dsimp only
    split
    · generalize pass.objectStatements x t (pass.addDefaults x t p) = step at hstep ⊢
      generalize pass'.objectStatements (x.rename ρ) (t.rename ρ)
        (pass'.addDefaults (x.rename ρ) (t.rename ρ) p') = step' at hstep ⊢
      cases hstep with
      | ok hfound hq =>
        subst hfound
        dsimp only
        rw [Distinct.union_map (Triple.rename_injective ρ)]
        exact ih hq _
      | error hfailure hq => exact .error hfailure hq
    · exact ih hfilled ts

/-- What the objects of a pair of subjects give: the renamed mapping and the renamed statements. -/
def ObjectsAlike (f : BlankNode → BlankNode) (found found' : Mapping × List Triple) : Prop :=
  Mapping.Renamed f found.1 found'.1 ∧ found'.2 = found.2.map (Triple.rename f)

theorem stepsAlike_matchObjectsOf (x t : Term) :
    StepsAlike ρ (ObjectsAlike ρ) (pass.matchObjectsOf x t p)
      (pass'.matchObjectsOf (x.rename ρ) (t.rename ρ) p') := by
  have hfind := Mapping.renamed_find? (h.knowledge.accepts pass.options.objectKind)
    (pass.candidate.objects x) (pass.template.objects t)
  simp only [matchObjectsOf, h.options, h.candidate.objects, h.template.objects]
  generalize Mapping.find? _ (pass.candidate.objects x) _ = found at hfind ⊢
  generalize Mapping.find? _ ((pass.candidate.objects x).map (Term.rename ρ)) _ = found' at hfind ⊢
  cases hfind with
  | none =>
    refine .error (.intro rfl .structuralMapping rfl rfl ?_) hp
    exact (((Reworded.same _).name x).text _).text _
  | @some mapping mapping' hmapping =>
    have hstep := stepsAlike_passObjects h hp mapping.pairs []
    rw [← hmapping.pairs, List.map_nil] at hstep
    dsimp only
    generalize pass.passObjects mapping.pairs [] p = step at hstep ⊢
    generalize pass'.passObjects mapping'.pairs [] p' = step' at hstep ⊢
    cases hstep with
    | ok hfound hq => exact .ok ⟨hmapping, hfound⟩ hq
    | error hfailure hq => exact .error hfailure hq

/-- The renamed mappings, the renamed last failure, and renamed progress. -/
structure MatchedAlike (f : BlankNode → BlankNode)
    (found found' : (Table Term Mapping × Option Failure) × Progress) : Prop where
  mapped : found.1.1.Renamed (Term.rename f) (Mapping.Renamed f) found'.1.1
  failure : Option.Rel (Failure.Renamed f) found.1.2 found'.1.2
  progress : found.2.Renamed f found'.2

theorem matchedAlike_matchObjects (pairs : List (Term × Term))
    {mapped mapped' : Table Term Mapping}
    (hmapped : mapped.Renamed (Term.rename ρ) (Mapping.Renamed ρ) mapped')
    {failure failure' : Option Failure}
    (hfailure : Option.Rel (Failure.Renamed ρ) failure failure') :
    MatchedAlike ρ (pass.matchObjects pairs mapped failure p)
      (pass'.matchObjects (pairs.map (renameTerms ρ)) mapped' failure' p') := by
  induction pairs generalizing mapped mapped' failure failure' p p' with
  | nil => exact ⟨hmapped, hfailure, hp⟩
  | cons pair rest ih =>
    obtain ⟨x, t⟩ := pair
    have hstep := stepsAlike_matchObjectsOf h hp x t
    rw [List.map_cons, renameTerms, matchObjects, matchObjects]
    dsimp only
    generalize pass.matchObjectsOf x t p = step at hstep ⊢
    generalize pass'.matchObjectsOf (x.rename ρ) (t.rename ρ) p' = step' at hstep ⊢
    cases hstep with
    | @ok found found' q q' hfound hq =>
      obtain ⟨mapping, ts⟩ := found
      obtain ⟨mapping', ts'⟩ := found'
      obtain ⟨hmapping, rfl⟩ := hfound
      exact ih (hq.addTranslated ts) (hmapped.insert (Term.rename_injective ρ) x hmapping) hfailure
    | error he hq => exact ih (hq.rollBack hp) hmapped (.some he)

/-! ## Graphs and the whole pass -/

theorem renamed_commit (graph : Term) {subjects subjects' : Mapping}
    (hsubjects : Mapping.Renamed ρ subjects subjects') {objects objects' : Table Term Mapping}
    (hobjects : objects.Renamed (Term.rename ρ) (Mapping.Renamed ρ) objects') :
    (pass.commit graph subjects objects p).Renamed ρ
      (pass'.commit (graph.rename ρ) subjects' objects' p') where
  document := by
    rw [commit, commit]
    dsimp only
    rw [hp.defaults, hp.translated]
    exact (h.candidate.store.insertAll _).insertAll _
  translated := hp.translated
  graph := rfl
  subjects := hsubjects
  objects := hobjects

theorem endAlike_finish (graph : Term) {subjects subjects' : Mapping}
    (hsubjects : Mapping.Renamed ρ subjects subjects') :
    EndAlike (Failure.Renamed ρ) (Accepted.Renamed ρ) (pass.finish graph subjects p)
      (pass'.finish (graph.rename ρ) subjects' p') := by
  have hmatched := matchedAlike_matchObjects h hp subjects.pairs Table.renamed_empty .none
  rw [← hsubjects.pairs] at hmatched
  rw [finish, finish]
  generalize pass.matchObjects subjects.pairs ∅ none p = found at hmatched ⊢
  generalize pass'.matchObjects subjects'.pairs ∅ none p' = found' at hmatched ⊢
  obtain ⟨⟨objects, failure⟩, q⟩ := found
  obtain ⟨⟨objects', failure'⟩, q'⟩ := found'
  obtain ⟨hobjects, hfailure, hq⟩ := hmatched
  have haccepted := renamed_commit h hq graph hsubjects hobjects
  -- the last failure counts only when no pair of subjects has passed
  obtain ⟨entries, hkeys⟩ := objects
  obtain ⟨entries', hkeys'⟩ := objects'
  cases (hobjects : List.Forall₂ _ entries entries') with
  | nil =>
    cases hfailure with
    | none => exact .ok haccepted
    | some hlast => exact .error hlast
  | cons _ _ => exact .ok haccepted

theorem endAlike_tryGraphs (graph : Term) (graphs : List Term) {failure failure' : Failure}
    (hfailure : failure.Renamed ρ failure') :
    EndAlike (Failure.Renamed ρ) (Accepted.Renamed ρ) (pass.tryGraphs graph graphs failure p)
      (pass'.tryGraphs (graph.rename ρ) (graphs.map (Term.rename ρ)) failure' p') := by
  induction graphs generalizing failure failure' p p' with
  | nil => exact .error hfailure
  | cons templateGraph rest ih =>
    have hstep := stepsAlike_matchSubjects h hp graph templateGraph
    rw [List.map_cons, tryGraphs, tryGraphs]
    generalize pass.matchSubjects graph templateGraph p = step at hstep ⊢
    generalize pass'.matchSubjects (graph.rename ρ) (templateGraph.rename ρ) p' = step' at hstep ⊢
    cases hstep with
    | ok hsubjects hq => exact endAlike_finish h hq templateGraph hsubjects
    | error he hq =>
      -- statements are taken back, but verdicts are kept, so that the memories must stay related
      exact ih (hq.rollBack hp) he

omit hp

theorem endAlike_run :
    EndAlike (Failure.Renamed ρ) (Accepted.Renamed ρ) pass.run pass'.run := by
  have hstep := stepsAlike_checkResource h (Progress.renamed_start ρ)
  rw [run, run]
  generalize pass.checkResource .start = step at hstep ⊢
  generalize pass'.checkResource .start = step' at hstep ⊢
  cases hstep with
  | error hfailure _ => exact .error hfailure
  | ok _ hp =>
    dsimp only
    rw [h.candidate.graphs, h.template.graphs]
    cases pass.candidate.graphs with
    | nil => exact .error (.intro rfl .missingGraph rfl rfl (.same _))
    | cons graph rest =>
      exact endAlike_tryGraphs h hp graph _ (.intro rfl .missingGraph rfl rfl (.same _))

theorem endAlike_checked :
    EndAlike (Failure.Renamed ρ) (Accepted.Renamed ρ) pass.checked pass'.checked := by
  have hconsistent := h.knowledge.store.checkConsistency
  rw [checked, checked]
  generalize pass.knowledge.store.checkConsistency = answer at hconsistent ⊢
  generalize pass'.knowledge.store.checkConsistency = answer' at hconsistent ⊢
  cases hconsistent with
  | error he => exact .error (Failure.renamed_ofQueryError .consistency he)
  | ok _ => exact endAlike_run h

end Pass

/-- Over an ontology and documents that are renamed at once, the pass ends alike. -/
theorem endAlike_conform {ontology ontology' : Store}
    {individual individual' template template' : Document}
    (hontology : ontology.Renamed ρ ontology') (hindividual : individual.Renamed ρ individual')
    (htemplate : template.Renamed ρ template') (maxDepth : Nat) (options : Options) :
    EndAlike (Failure.Renamed ρ) (Accepted.Renamed ρ)
      (conform ontology maxDepth individual template options)
      (conform ontology' maxDepth individual' template' options) :=
  Pass.endAlike_checked
    ⟨⟨(hontology.merge hindividual.store).merge htemplate.store, rfl⟩, hindividual, htemplate, rfl⟩

end Conformance

end GraphConformance
