import GraphConformance.Proofs.Conformance.Contents
import GraphConformance.Proofs.Evidence.Violations
import GraphConformance.Proofs.Knowledge.Consistency
import GraphConformance.Proofs.Knowledge.Histories

/-!
# What a rejection blames

A pass that rejects its documents says at which stage and why (`Failure.IsRejection`): the knowledge
is inconsistent, the resources do not correspond, a graph is missing, subjects or objects cannot be
mapped, or a membership fails. No individual is ever reported as unknown: all that a pass asks about
is an object of one of its documents, and both are imported.

Each step keeps two things: its failure is a rejection, and the memory of the translator is one that
occurs (`Pass.Explains`), so a failed translation is a violation.
-/

set_option autoImplicit false

namespace GraphConformance

open Vocabulary Evidence

/-- The failure is one that a pass ends with, by its stage and its kind. -/
inductive Failure.IsRejection (f : Failure) : Prop where
  | inconsistent {reason : String} (stage : f.stage = .consistency)
      (kind : f.kind = .inconsistent reason)
  | resource (stage : f.stage = .resourceCheck) (kind : f.kind = .resourceMismatch)
  | graph (stage : f.stage = .graphSelection) (kind : f.kind = .missingGraph)
  | subjects (stage : f.stage = .subjectMapping) (kind : f.kind = .structuralMapping)
  | objects (stage : f.stage = .objectMapping) (kind : f.kind = .structuralMapping)
  | membership (h : f.IsViolation)

namespace Failure.IsRejection

variable {f g : Failure}

/-- Only the failure of a membership holds other failures. -/
theorem isViolation_of_contains (h : f.IsRejection) (hg : f.Contains g) : g.IsViolation := by
  have hparts : f.parts ≠ [] := by
    obtain ⟨part, hpart, -⟩ := Relation.TransGen.head'_iff.mp hg
    exact List.ne_nil_of_mem hpart
  cases h with
  | inconsistent stage kind => exact absurd (by rw [parts, kind]) hparts
  | resource stage kind => exact absurd (by rw [parts, kind]) hparts
  | graph stage kind => exact absurd (by rw [parts, kind]) hparts
  | subjects stage kind => exact absurd (by rw [parts, kind]) hparts
  | objects stage kind => exact absurd (by rw [parts, kind]) hparts
  | membership h => exact h.of_contains hg

theorem kind_ne_unknownIndividual (h : f.IsRejection) : f.kind ≠ .unknownIndividual := by
  intro hunknown
  cases h with
  | inconsistent stage kind => exact absurd (kind.symm.trans hunknown) (by simp)
  | resource stage kind => exact absurd (kind.symm.trans hunknown) (by simp)
  | graph stage kind => exact absurd (kind.symm.trans hunknown) (by simp)
  | subjects stage kind => exact absurd (kind.symm.trans hunknown) (by simp)
  | objects stage kind => exact absurd (kind.symm.trans hunknown) (by simp)
  | membership h =>
    have hkind := h.kind
    rw [hunknown] at hkind
    exact hkind

end Failure.IsRejection

namespace Knowledge

theorem exists_typeProfile {k : Knowledge} {x : Term} (h : k.store.mentions x = true) :
    ∃ e, k.typeProfile x = .ok e :=
  ⟨_, bind_eq_ok_iff.mpr ⟨_, ifMentioned_eq_ok_iff.mpr ⟨h, rfl⟩, rfl⟩⟩

end Knowledge

theorem Mapping.IsMapping.mem_of_mem_pairs {accepts : Term → Term → Bool}
    {individuals templates : List Term} {m : Mapping}
    (h : m.IsMapping accepts individuals templates) {i t : Term} (hpair : (i, t) ∈ m.pairs) :
    i ∈ individuals ∧ t ∈ templates := by
  rw [Mapping.mem_pairs_iff] at hpair
  refine ⟨(h.mem_individuals i).mp ?_, h.mem_templates i t hpair⟩
  obtain ⟨p, hp, -⟩ := Option.bind_eq_some_iff.mp hpair
  rw [hp]
  rfl

namespace Document

variable {d : Document} {x y : Term}

theorem mem_subjects : y ∈ d.subjects x ↔ ⟨x, .iri Protocol.hasSubject, y⟩ ∈ d.store.triples := by
  rw [subjects, Distinct.mem_dedup, Store.mem_objects]

theorem exists_of_mem_objects (h : y ∈ d.objects x) : ∃ p, ⟨x, p, y⟩ ∈ d.store.triples := by
  rw [objects, Distinct.mem_dedup] at h
  obtain ⟨⟨p, o⟩, hedge, rfl⟩ := List.mem_map.mp (List.mem_of_mem_filter h)
  exact ⟨p, Store.mem_outgoing.mp (List.mem_of_mem_filter hedge)⟩

end Document

namespace Conformance

namespace Pass

/-- Pairs of terms about which the knowledge of the pass answers. -/
def Mentions (pass : Pass) (pairs : List (Term × Term)) : Prop :=
  ∀ i t, (i, t) ∈ pairs →
    pass.knowledge.store.mentions i = true ∧ pass.knowledge.store.mentions t = true

/-- The memory of the translator is one that occurs. -/
def Remembers (pass : Pass) (p : Progress) : Prop :=
  p.translator.memo.Reached pass.knowledge.reasoner

/-- A step fails with rejections only, and leaves a memory that occurs. -/
def Explains {α : Type} (pass : Pass) (step : Step α) : Prop :=
  (∀ f, step.1 = .error f → f.IsRejection) ∧ pass.Remembers step.2

variable {pass : Pass} {individual template : Term} {p : Progress}

theorem Explains.ok {α : Type} (a : α) (hp : pass.Remembers p) :
    pass.Explains (.ok a, p) :=
  ⟨fun _ h => absurd h (by simp), hp⟩

theorem Explains.error {α : Type} {f : Failure} (hf : f.IsRejection)
    (hp : pass.Remembers p) : pass.Explains ((.error f, p) : Step α) := by
  refine ⟨?_, hp⟩
  intro g h
  rw [← Except.error.inj h]
  exact hf

/-- What is answered after a failure of a step is another failure of it. -/
theorem Explains.isRejection {α : Type} {f : Failure} {step : Step α} (h : pass.Explains step)
    {q : Progress} (hstep : step = (.error f, q)) : f.IsRejection := by
  subst hstep
  exact h.1 f rfl

theorem Explains.memory {α : Type} {result : Except Failure α} {step : Step α}
    (h : pass.Explains step) {q : Progress} (hstep : step = (result, q)) : pass.Remembers q := by
  subst hstep
  exact h.2

/-! ## Documents -/

namespace Imports

theorem mentions_candidate (h : pass.Imports) {t : Triple}
    (ht : t ∈ pass.candidate.store.triples) : pass.knowledge.store.mentions t.object = true :=
  Store.mentions_iff.mpr ⟨t, h.candidate ht, Or.inr (Or.inr rfl)⟩

theorem mentions_template (h : pass.Imports) {t : Triple}
    (ht : t ∈ pass.template.store.triples) : pass.knowledge.store.mentions t.object = true :=
  Store.mentions_iff.mpr ⟨t, h.template ht, Or.inr (Or.inr rfl)⟩

theorem mentions_subjects (h : pass.Imports) {graph templateGraph : Term} {m : Mapping}
    {accepts : Term → Term → Bool} (hm : m.IsMapping accepts (pass.candidate.subjects graph)
      (pass.template.subjects templateGraph)) : pass.Mentions m.pairs := by
  intro i t hpair
  obtain ⟨hi, ht⟩ := hm.mem_of_mem_pairs hpair
  exact ⟨h.mentions_candidate (Document.mem_subjects.mp hi),
    h.mentions_template (Document.mem_subjects.mp ht)⟩

theorem mentions_objects (h : pass.Imports) {subject templateSubject : Term} {m : Mapping}
    {accepts : Term → Term → Bool} (hm : m.IsMapping accepts (pass.candidate.objects subject)
      (pass.template.objects templateSubject)) : pass.Mentions m.pairs := by
  intro i t hpair
  obtain ⟨hi, ht⟩ := hm.mem_of_mem_pairs hpair
  obtain ⟨p, hp⟩ := Document.exists_of_mem_objects hi
  obtain ⟨q, hq⟩ := Document.exists_of_mem_objects ht
  exact ⟨h.mentions_candidate hp, h.mentions_template hq⟩

end Imports

/-! ## Translation -/

theorem explains_translate (hi : pass.knowledge.store.mentions individual = true)
    (ht : pass.knowledge.store.mentions template = true) (hp : pass.Remembers p) :
    pass.Explains (pass.translate individual template p) := by
  obtain ⟨target, htarget⟩ := Knowledge.exists_typeProfile ht
  rw [translate, htarget]
  refine ⟨?_, hp.translate pass.knowledge.reasoner.definedPairs p.translator.path target
    individual⟩
  intro f hf
  exact .membership
    (pass.knowledge.answers_reasoner.isViolation_of_translateWithin hp (Or.inr hi) hf)

/-! ## Subjects -/

theorem explains_passSubject {required : Bool}
    (hi : pass.knowledge.store.mentions individual = true)
    (ht : pass.knowledge.store.mentions template = true) (hp : pass.Remembers p) :
    pass.Explains (pass.passSubject required individual template p) := by
  have hfilled : pass.Remembers (pass.addDefaults individual template p) := by
    rw [Remembers, addDefaults_translator]
    exact hp
  have htranslate := explains_translate hi ht hfilled
  rw [passSubject]
  split
  · split
    · rename_i statements q heq
      have hq := htranslate.memory heq
      exact .ok _ hq
    · rename_i failure q heq
      have hq := htranslate.memory heq
      split
      · exact .error (htranslate.isRejection heq) hq
      · exact .ok _ hq
  · exact .ok _ hfilled

theorem explains_passSubjects {mapping : Mapping}
    {pairs : List (Term × Term)} (hpairs : pass.Mentions pairs)
    (hp : pass.Remembers p) : pass.Explains (pass.passSubjects mapping pairs p) := by
  induction pairs generalizing p with
  | nil => exact .ok _ hp
  | cons pair rest ih =>
    obtain ⟨individual, template⟩ := pair
    obtain ⟨hi, ht⟩ := hpairs individual template List.mem_cons_self
    have hfirst : pass.Explains
        (pass.passSubject (mapping.isRequired individual) individual template p) :=
      explains_passSubject hi ht hp
    rw [passSubjects]
    split
    · rename_i failure q heq
      exact .error (hfirst.isRejection heq) (hfirst.memory heq)
    · rename_i q heq
      exact ih (fun i t h => hpairs i t (List.mem_cons_of_mem _ h)) (hfirst.memory heq)

theorem explains_matchSubjects (hpass : pass.Imports) {graph templateGraph : Term}
    (hp : pass.Remembers p) :
    pass.Explains (pass.matchSubjects graph templateGraph p) := by
  rw [matchSubjects]
  split
  · exact .error (.subjects rfl rfl) hp
  · rename_i mapping hfind
    have hsubjects : pass.Explains (pass.passSubjects mapping mapping.pairs p) :=
      explains_passSubjects (hpass.mentions_subjects (Mapping.isMapping_of_find? hfind)) hp
    split
    · rename_i failure q heq
      exact .error (hsubjects.isRejection heq) (hsubjects.memory heq)
    · rename_i q heq
      exact .ok _ (hsubjects.memory heq)

/-! ## Objects -/

theorem explains_objectStatements (hi : pass.knowledge.store.mentions individual = true)
    (ht : pass.knowledge.store.mentions template = true) (hp : pass.Remembers p) :
    pass.Explains (pass.objectStatements individual template p) := by
  obtain ⟨profile, hprofile⟩ := Knowledge.exists_typeProfile hi
  rw [objectStatements, hprofile]
  dsimp only
  split
  · exact .ok _ hp
  · exact explains_translate hi ht hp

theorem explains_passObjects {pairs : List (Term × Term)} {statements : List Triple}
    (hpairs : pass.Mentions pairs) (hp : pass.Remembers p) :
    pass.Explains (pass.passObjects pairs statements p) := by
  induction pairs generalizing p statements with
  | nil => exact .ok _ hp
  | cons pair rest ih =>
    obtain ⟨individual, template⟩ := pair
    obtain ⟨hi, ht⟩ := hpairs individual template List.mem_cons_self
    have hrest : pass.Mentions rest := fun i t h => hpairs i t (List.mem_cons_of_mem _ h)
    have hfilled : pass.Remembers (pass.addDefaults individual template p) := by
      rw [Remembers, addDefaults_translator]
      exact hp
    have hfirst := explains_objectStatements hi ht hfilled
    rw [passObjects]
    split
    · split
      · rename_i failure q heq
        exact .error (hfirst.isRejection heq) (hfirst.memory heq)
      · rename_i found q heq
        exact ih hrest (hfirst.memory heq)
    · exact ih hrest hfilled

theorem explains_matchObjectsOf (hpass : pass.Imports) {subject : Term}
    (hp : pass.Remembers p) : pass.Explains (pass.matchObjectsOf subject template p) := by
  rw [matchObjectsOf]
  split
  · exact .error (.objects rfl rfl) hp
  · rename_i mapping hfind
    have hobjects : pass.Explains (pass.passObjects mapping.pairs [] p) :=
      explains_passObjects (hpass.mentions_objects (Mapping.isMapping_of_find? hfind)) hp
    split
    · rename_i failure q heq
      exact .error (hobjects.isRejection heq) (hobjects.memory heq)
    · rename_i statements q heq
      exact .ok _ (hobjects.memory heq)

/-- The failure that is kept is that of a subject whose objects fail. -/
theorem isRejection_of_matchObjects (hpass : pass.Imports) {pairs : List (Term × Term)}
    {mapped objects : Table Term Mapping} {failure : Option Failure}
    (hfailure : ∀ f ∈ failure, f.IsRejection) (hp : pass.Remembers p) {f : Failure}
    {q : Progress} (h : pass.matchObjects pairs mapped failure p = ((objects, some f), q)) :
    f.IsRejection := by
  induction pairs generalizing mapped failure p with
  | nil =>
    obtain ⟨hfst, -⟩ := Prod.mk.inj h
    obtain ⟨-, rfl⟩ := Prod.mk.inj hfst
    exact hfailure f rfl
  | cons pair rest ih =>
    obtain ⟨subject, template⟩ := pair
    have hfirst : pass.Explains (pass.matchObjectsOf subject template p) :=
      explains_matchObjectsOf hpass hp
    rw [matchObjects] at h
    split at h
    · rename_i mapping statements q' heq
      have hq := hfirst.memory heq
      refine ih hfailure ?_ h
      exact hq
    · rename_i last q' heq
      have hq := hfirst.memory heq
      refine ih ?_ ?_ h
      · intro g hg
        rw [← Option.mem_some.mp hg]
        exact hfirst.isRejection heq
      · exact hq

/-! ## Graphs and the whole pass -/

variable {f : Failure}

theorem isRejection_of_finish (hpass : pass.Imports) {graph : Term} {subjects : Mapping}
    (hp : pass.Remembers p) (h : pass.finish graph subjects p = .error f) :
    f.IsRejection := by
  rw [finish] at h
  split at h
  · rename_i failure q heq
    rw [← Except.error.inj h]
    exact isRejection_of_matchObjects hpass (by simp) hp heq
  · exact absurd h (by simp)

theorem isRejection_of_tryGraphs (hpass : pass.Imports) {graph : Term} {graphs : List Term}
    {failure : Failure} (hfailure : failure.IsRejection) (hp : pass.Remembers p)
    (h : pass.tryGraphs graph graphs failure p = .error f) : f.IsRejection := by
  induction graphs generalizing failure p with
  | nil =>
    rw [← Except.error.inj h]
    exact hfailure
  | cons templateGraph rest ih =>
    have hfirst : pass.Explains (pass.matchSubjects graph templateGraph p) :=
      explains_matchSubjects hpass hp
    rw [tryGraphs] at h
    split at h
    · rename_i subjects q heq
      exact isRejection_of_finish hpass (hfirst.memory heq) h
    · rename_i last q heq
      have hq := hfirst.memory heq
      refine ih (hfirst.isRejection heq) ?_ h
      exact hq

theorem explains_checkResource (hp : pass.Remembers p) :
    pass.Explains (pass.checkResource p) := by
  rw [checkResource]
  split
  · exact .error (.resource rfl rfl) hp
  · split
    · refine .ok _ ?_
      rw [Remembers, addDefaults_translator]
      exact hp
    · exact .error (.resource rfl rfl) hp

theorem isRejection_of_run (hpass : pass.Imports) (h : pass.run = .error f) : f.IsRejection := by
  have hresource : pass.Explains (pass.checkResource .start) := explains_checkResource .empty
  rw [run] at h
  split at h
  · rename_i failure q heq
    rw [← Except.error.inj h]
    exact hresource.isRejection heq
  · rename_i p heq
    split at h
    · rw [← Except.error.inj h]
      exact .graph rfl rfl
    · exact isRejection_of_tryGraphs hpass (.graph rfl rfl) (hresource.memory heq) h

/-- A store is refused because it is inconsistent, and for no other reason. -/
theorem exists_reason_of_checkConsistency {s : Store} {e : Knowledge.QueryError}
    (h : s.checkConsistency = .error e) : ∃ reason, e = .inconsistent reason := by
  rw [Store.checkConsistency] at h
  split at h
  · rename_i reason _
    exact ⟨reason, (Except.error.inj h).symm⟩
  · exact absurd h (by simp)

theorem isRejection_of_checked (hpass : pass.Imports) (h : pass.checked = .error f) :
    f.IsRejection := by
  rw [checked] at h
  split at h
  · rename_i e heq
    obtain ⟨reason, rfl⟩ := exists_reason_of_checkConsistency heq
    rw [← Except.error.inj h]
    exact .inconsistent rfl rfl
  · exact isRejection_of_run hpass h

end Pass

/-- What a knowledge base rejects, it rejects at a stage and for a reason of that stage; the
failures inside are those of memberships, and no individual is ever unknown. -/
theorem isRejection_of_conform? (kb kb' : KnowledgeBase) (candidate template : Document)
    (options : Options) (f : Failure)
    (h : kb.conform? candidate template options = some (.error f, kb')) :
    f.IsRejection ∧ f.kind ≠ .unknownIndividual ∧
      ∀ g, f.Contains g → g.stage = .restriction ∧ g.kind.IsViolation ∧
        g.kind ≠ .unknownIndividual := by
  have hf := Pass.isRejection_of_checked (imports_merge kb.ontology kb.maxDepth _ _ options)
    (checked_of_conform? h)
  refine ⟨hf, hf.kind_ne_unknownIndividual, ?_⟩
  intro g hg
  have hviolation := hf.isViolation_of_contains hg
  exact ⟨hviolation.stage, hviolation.kind,
    (Failure.IsRejection.membership hviolation).kind_ne_unknownIndividual⟩

/-! ### A value of the wrong class

The template has a subject of the class C, whose definition asks for some D under p. The subject of
the instance has a value under p, of which nothing is said. -/

namespace WrongValue

def ontology : Store := .ofList
  [⟨.iri ⟨"C"⟩, .iri Owl.equivalentClass, .blank ⟨0, none⟩⟩,
    ⟨.blank ⟨0, none⟩, .iri Owl.onProperty, .iri ⟨"p"⟩⟩,
    ⟨.blank ⟨0, none⟩, .iri Owl.someValuesFrom, .iri ⟨"D"⟩⟩]

def candidate : Document where
  store := .ofList
    [⟨.iri ⟨"r"⟩, .iri Protocol.hasGraph, .iri ⟨"g"⟩⟩,
      ⟨.iri ⟨"g"⟩, .iri Protocol.hasSubject, .iri ⟨"s"⟩⟩,
      ⟨.iri ⟨"s"⟩, .iri ⟨"p"⟩, .iri ⟨"o"⟩⟩]
  resource := .iri ⟨"r"⟩

def template : Document where
  store := .ofList
    [⟨.iri ⟨"r"⟩, .iri Protocol.hasGraph, .iri ⟨"h"⟩⟩,
      ⟨.iri ⟨"h"⟩, .iri Protocol.hasSubject, .iri ⟨"t"⟩⟩,
      ⟨.iri ⟨"t"⟩, .iri Rdf.type, .iri ⟨"C"⟩⟩]
  resource := .iri ⟨"r"⟩

def pass : Pass :=
  ⟨⟨(ontology.merge candidate.store).merge template.store, 2⟩, candidate, template,
    SecondGraph.options⟩

/-- The stage and the kind of a failure, and those of the failures that it holds. -/
def summary (f : Failure) : Stage × String × List (Stage × String) :=
  (f.stage, f.kind.name, f.parts.map fun g => (g.stage, g.kind.name))

theorem rejected : ∃ f, pass.checked = .error f ∧ summary f =
    (.restriction, "restriction_violation", [(.restriction, "not_a_member")]) := by
  have hsummary : (match pass.run with
      | .error f => some (summary f)
      | .ok _ => none) =
        some (.restriction, "restriction_violation", [(.restriction, "not_a_member")]) := by
    decide +kernel
  have hconsistent : pass.knowledge.store.checkConsistency = .ok () :=
    Store.checkConsistency_of_silent (by decide +kernel)
  cases hrun : pass.run with
  | ok d =>
    rw [hrun] at hsummary
    exact absurd hsummary (by simp)
  | error f =>
    rw [hrun] at hsummary
    refine ⟨f, ?_, Option.some.inj hsummary⟩
    rw [Pass.checked, hconsistent]
    exact hrun

/-- The restriction is violated because the value is no member of its class. -/
theorem isRejection_of_value : ∃ f kb',
    (KnowledgeBase.ofOntology ontology 2).conform? candidate template SecondGraph.options =
        some (.error f, kb') ∧
      summary f = (.restriction, "restriction_violation", [(.restriction, "not_a_member")]) ∧
      f.IsRejection ∧ ∃ g, f.Contains g ∧ g.kind.IsViolation := by
  obtain ⟨f, hf, hsummary⟩ := rejected
  have hconform :=
    KnowledgeBase.conform?_ofOntology ontology 2 candidate template SecondGraph.options
  rw [show conform ontology 2 candidate template SecondGraph.options = pass.checked from rfl,
    hf] at hconform
  obtain ⟨⟨result, kb'⟩, hkb', hresult⟩ := Option.map_eq_some_iff.mp hconform
  obtain rfl : result = .error f := hresult
  obtain ⟨hrejection, -, hinside⟩ := isRejection_of_conform? _ _ _ _ _ _ hkb'
  obtain ⟨g, hg⟩ : ∃ g, g ∈ f.parts := by
    have hlength := congrArg (fun parts => parts.2.2.length) hsummary
    rw [summary, List.length_map] at hlength
    exact List.exists_mem_of_length_pos (by rw [hlength]; simp)
  have hcontains : f.Contains g := .single hg
  exact ⟨f, kb', hkb', hsummary, hrejection, g, hcontains, (hinside g hcontains).2.1⟩

end WrongValue

end Conformance

end GraphConformance
