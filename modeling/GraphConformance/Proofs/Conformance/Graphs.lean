import GraphConformance.Proofs.Conformance.Lockstep
import GraphConformance.Proofs.Knowledge.Consistency

/-!
# What a rejected graph leaves behind

A pass tries the graphs of the template in order. What a rejected graph collected is taken back, but
the translator keeps what it remembers. `toOption_checked_of_tries` compares the pass with the one
to which only the deciding graph is offered (`Pass.offered`): both accept the same document or none,
when the pairs that the rejected graphs left with the translator, and that the deciding graph meets
again, are acyclic.

`AbandonedGraph` shows that the condition is needed: on a cyclic pair the verdict that a rejected
graph left can decide the pass.
-/

set_option autoImplicit false

namespace GraphConformance.Conformance

open Vocabulary Evidence

/-- The pass to which the given graphs of the template are offered. -/
def Pass.offered (pass : Pass) (templateGraphs : List Term) : Except Failure Accepted :=
  match pass.knowledge.store.checkConsistency with
  | .error e => .error (.ofQueryError .consistency e)
  | .ok _ =>
    match pass.checkResource .start with
    | (.error failure, _) => .error failure
    | (.ok _, p) =>
      match pass.candidate.graphs with
      | [] => .error (missingGraph "instance declares no graph")
      | graph :: _ =>
        pass.tryGraphs graph templateGraphs (missingGraph "template declares no graph") p

/-- The progress at the end of an attempt with a graph of the template. -/
def Pass.progressWith (pass : Pass) (graph templateGraph : Term) (p : Progress) : Progress :=
  match pass.matchSubjects graph templateGraph p with
  | (.error _, q) => q
  | (.ok subjects, q) => (pass.matchObjects subjects.pairs ∅ none q).2

/-- A pass comes to a graph of the template from the progress `p` after the resources: the graphs
before it are rejected, with the progress `q`, and it decides, because its subjects match or because
it is the last one. -/
structure Pass.Tries (pass : Pass) (graph templateGraph : Term) (before after : List Term)
    (p q : Progress) : Prop where
  resource : pass.checkResource .start = (.ok (), p)
  firstGraph : pass.candidate.graphs.head? = some graph
  templateGraphs : pass.template.graphs = before ++ templateGraph :: after
  skips : pass.Skips graph before p q
  decides : after = [] ∨ ∃ subjects s, pass.matchSubjects graph templateGraph q = (.ok subjects, s)

/-! ## Passes over one pair of subjects -/

/-- What maps a graph of the instance with one subject to a graph of the template with one subject,
in a pass that asks for translation and not for defaults. -/
structure Pass.Single (pass : Pass) (graph templateGraph individual template : Term)
    (target : Expression) : Prop where
  withoutDefaults : pass.options.closedWorldDefaults = false
  withTranslation : pass.options.translate = true
  isFound : Mapping.find? (pass.knowledge.accepts pass.options.subjectKind)
    (pass.candidate.subjects graph) (pass.template.subjects templateGraph) =
      some (Table.insert ∅ individual (.required template))
  typeProfile : pass.knowledge.typeProfile template = .ok target

namespace Pass.Single

variable {pass : Pass} {graph templateGraph individual template : Term} {target : Expression}

theorem matchSubjects_eq (h : pass.Single graph templateGraph individual template target)
    (p : Progress) :
    pass.matchSubjects graph templateGraph p =
      match p.translator.translate pass.knowledge.reasoner target individual with
      | (.ok statements, τ) =>
        (.ok (Table.insert ∅ individual (.required template)),
          { p with translated := Distinct.union p.translated statements, translator := τ })
      | (.error failure, τ) => (.error failure, { p with translator := τ }) := by
  have hpairs : Mapping.pairs (Table.insert ∅ individual (.required template)) =
      [(individual, template)] := rfl
  have hrequired : Mapping.isRequired (Table.insert ∅ individual (.required template)) individual =
      true := Mapping.isRequired_of_required (by rw [Table.get?_insert, if_pos rfl])
  unfold matchSubjects
  dsimp only
  rw [h.isFound]
  have hfilled : pass.addDefaults individual template p = p := by
    rw [addDefaults, h.withoutDefaults]
    rfl
  simp only [hpairs, passSubjects, hrequired, passSubject, hfilled, h.withTranslation,
    translate_of_typeProfile h.typeProfile, if_true]
  generalize p.translator.translate pass.knowledge.reasoner target individual = answer
  obtain ⟨verdict, τ⟩ := answer
  cases verdict with
  | ok statements => rfl
  | error failure => rfl

theorem matchSubjects_error (h : pass.Single graph templateGraph individual template target)
    {p : Progress}
    (hnone : (p.translator.translate pass.knowledge.reasoner target individual).1.toOption = none) :
    ∃ failure, pass.matchSubjects graph templateGraph p = (.error failure,
      { p with
        translator := (p.translator.translate pass.knowledge.reasoner target individual).2 }) := by
  rw [h.matchSubjects_eq]
  generalize p.translator.translate pass.knowledge.reasoner target individual = answer at hnone ⊢
  obtain ⟨verdict, τ⟩ := answer
  cases verdict with
  | ok statements => exact absurd hnone (by simp [Except.toOption])
  | error failure => exact ⟨failure, rfl⟩

theorem matchSubjects_ok (h : pass.Single graph templateGraph individual template target)
    {p : Progress} {statements : List Triple}
    (hsome : (p.translator.translate pass.knowledge.reasoner target individual).1.toOption =
      some statements) :
    pass.matchSubjects graph templateGraph p =
      (.ok (Table.insert ∅ individual (.required template)),
        { p with
          translated := Distinct.union p.translated statements
          translator :=
            (p.translator.translate pass.knowledge.reasoner target individual).2 }) := by
  rw [h.matchSubjects_eq]
  generalize p.translator.translate pass.knowledge.reasoner target individual = answer at hsome ⊢
  obtain ⟨verdict, τ⟩ := answer
  cases verdict with
  | ok found =>
    obtain rfl : found = statements := Option.some.inj hsome
    rfl
  | error failure => exact absurd hsome (by simp [Except.toOption])

/-- Objects that need no partner are no reason to reject. -/
theorem exists_finish_eq_ok (templateGraph : Term) {m : Mapping}
    (hobjects : Mapping.find? (pass.knowledge.accepts pass.options.objectKind)
      (pass.candidate.objects individual) (pass.template.objects template) = some m)
    (hpairs : m.pairs = []) (p : Progress) :
    ∃ d, pass.finish templateGraph (Table.insert ∅ individual (.required template)) p = .ok d := by
  have hmapped : pass.matchObjects [(individual, template)] ∅ none p =
      ((Table.insert ∅ individual m, none), p) := by
    simp [matchObjects, matchObjectsOf, hobjects, hpairs, passObjects]
  exact ⟨_, (finish_eq_ok_iff hmapped).mpr ⟨fun _ => rfl, rfl⟩⟩

end Pass.Single

namespace Pass

variable {pass : Pass} {graph templateGraph : Term} {before after : List Term} {p q : Progress}

/-! ## The graphs that are tried -/

/-- A pass is offered all graphs of its template. -/
theorem checked_eq_offered (pass : Pass) : pass.checked = pass.offered pass.template.graphs := rfl

theorem offered_eq_tryGraphs (hresource : pass.checkResource .start = (.ok (), p))
    (hgraph : pass.candidate.graphs.head? = some graph)
    (hconsistent : pass.knowledge.store.checkConsistency = .ok ()) (templateGraphs : List Term) :
    pass.offered templateGraphs =
      pass.tryGraphs graph templateGraphs (missingGraph "template declares no graph") p := by
  obtain ⟨rest, hgraphs⟩ := List.head?_eq_some_iff.mp hgraph
  unfold offered
  rw [hconsistent, hresource, hgraphs]

theorem Skips.tryGraphs_eq (h : pass.Skips graph before p q) (rest : List Term)
    (failure : Failure) :
    ∃ failure', pass.tryGraphs graph (before ++ rest) failure p =
      pass.tryGraphs graph rest failure' q := by
  induction h generalizing failure with
  | nil p => exact ⟨failure, rfl⟩
  | cons h hrest ih =>
    obtain ⟨failure', hfailure'⟩ := ih _
    refine ⟨failure', ?_⟩
    rw [List.cons_append, tryGraphs, h]
    exact hfailure'

/-- The failure that is answered last depends on the graphs before, acceptance does not. -/
theorem toOption_tryGraphs_eq
    (hdecides : after = [] ∨
      ∃ subjects s, pass.matchSubjects graph templateGraph q = (.ok subjects, s))
    (failure failure' : Failure) :
    (pass.tryGraphs graph (templateGraph :: after) failure q).toOption =
      (pass.tryGraphs graph [templateGraph] failure' q).toOption := by
  rw [tryGraphs, tryGraphs]
  rcases hdecides with rfl | ⟨subjects, s, hs⟩
  · rfl
  · rw [hs]

/-- From progresses that are alike, a graph gives the same result. -/
theorem toOption_tryGraphs_of_alike {H : Set (Expression × Term)}
    (h : p.Alike q pass.knowledge H)
    (hH : (pass.progressWith graph templateGraph p).Avoids H) (failure : Failure) :
    (pass.tryGraphs graph [templateGraph] failure p).toOption =
      (pass.tryGraphs graph [templateGraph] failure q).toOption := by
  unfold progressWith at hH
  have hstep : Alongside pass.knowledge H (pass.matchSubjects graph templateGraph p)
      (pass.matchSubjects graph templateGraph q) := by
    apply alongside_matchSubjects h
    generalize pass.matchSubjects graph templateGraph p = x at hH
    obtain ⟨result, s⟩ := x
    cases result with
    | ok subjects => exact hH.of_runs (runs_matchObjects rfl)
    | error e => exact hH
  rw [tryGraphs, tryGraphs]
  generalize pass.matchSubjects graph templateGraph p = x at hstep hH ⊢
  generalize pass.matchSubjects graph templateGraph q = y at hstep ⊢
  cases hstep with
  | ok subjects h' => exact toOption_finish_of_alike h' hH
  | error e e' h' => rfl

/-- A translator that is new and one with a history agree outside what the history left of cyclic
pairs. -/
theorem alike_of_skips (hp : p.translator = .new) (h : pass.Skips graph before p q) :
    p.Alike q pass.knowledge
      {pair | pass.knowledge.reasoner.closedWorld pair.1 pair.2 = none ∧
        q.translator.Knows pair} := by
  have hreaches : pass.Reaches q := h.reaches (Runs.of_eq hp)
  obtain ⟨calls, -, hcalls⟩ := hreaches
  have hpath : q.translator.path = .empty := by
    rw [hcalls, Translator.path_run]
    rfl
  have hleft := Translator.faithful_new pass.knowledge.reasoner
  have hright := Translator.faithful_run hleft calls
  rw [show (Translator.new).run _ calls = q.translator from hcalls.symm] at hright
  obtain ⟨hdefaults, htranslated⟩ := h.collected
  refine ⟨hdefaults.symm, htranslated.symm, ⟨by rw [hp]; exact hleft, hright, ?_⟩, by rw [hp]; rfl,
    hpath⟩
  intro pair hnone hH
  have hunknown : q.translator.memo.known pair = none := by
    by_contra hne
    exact hH ⟨hnone, hne⟩
  rw [hunknown, hp]
  rfl

/-- A rejected graph of the template leaves nothing among the defaults and the translated
statements. The pass accepts the same document, or none, as if only the deciding graph were offered,
when the pairs that the rejected graphs left with the translator and that the deciding graph meets
on its own are acyclic. -/
theorem toOption_checked_of_tries (pass : Pass) (graph templateGraph : Term)
    (before after : List Term) (p q : Progress)
    (h : pass.Tries graph templateGraph before after p q)
    (hshared : ∀ pair, q.translator.Knows pair →
      (pass.progressWith graph templateGraph p).translator.Knows pair →
        pass.knowledge.Acyclic pair) :
    q.defaults = p.defaults ∧ q.translated = p.translated ∧
      pass.checked.toOption = (pass.offered [templateGraph]).toOption := by
  obtain ⟨hdefaults, htranslated⟩ := h.skips.collected
  refine ⟨hdefaults, htranslated, ?_⟩
  cases hconsistent : pass.knowledge.store.checkConsistency with
  | error e =>
    unfold checked offered
    rw [hconsistent]
  | ok u =>
    have hnew : p.translator = .new := by
      rw [(checkResource_ok h.resource).2.2]
      exact addDefaults_translator
    have hoffered := offered_eq_tryGraphs h.resource h.firstGraph hconsistent
    obtain ⟨failure, hfailure⟩ := h.skips.tryGraphs_eq (templateGraph :: after)
      (missingGraph "template declares no graph")
    -- what the rejected graphs left of cyclic pairs is not met by the deciding one
    have havoids : (pass.progressWith graph templateGraph p).Avoids
        {pair | pass.knowledge.reasoner.closedWorld pair.1 pair.2 = none ∧
          q.translator.Knows pair} := by
      rintro pair ⟨hnone, hknows⟩
      by_contra hne
      obtain ⟨finding, hfinding⟩ := Knowledge.acyclic_iff.mp (hshared pair hknows hne)
      exact absurd (hnone.symm.trans hfinding) (by simp)
    calc pass.checked.toOption
        = (pass.tryGraphs graph (templateGraph :: after) failure q).toOption := by
          rw [checked_eq_offered, hoffered, h.templateGraphs, hfailure]
      _ = (pass.tryGraphs graph [templateGraph] failure q).toOption :=
          toOption_tryGraphs_eq h.decides failure failure
      _ = (pass.tryGraphs graph [templateGraph] failure p).toOption :=
          (toOption_tryGraphs_of_alike (alike_of_skips hnew h.skips) havoids failure).symm
      _ = (pass.offered [templateGraph]).toOption := by
          rw [hoffered]
          rfl

end Pass

/-! ### A verdict that a rejected graph left

The knowledge is that of `ProvisionalVerdict`, where z is none of the classes A, B, C and D, and
that everything is an E. The template has two graphs with one subject each, whose types vary. -/

namespace AbandonedGraph

open ProvisionalVerdict

def ontology : Store :=
  .ofList (triples ++ [⟨.iri ⟨"E"⟩, .iri Owl.equivalentClass, .iri Owl.thing⟩])

def candidate : Document where
  store := .ofList
    [⟨.iri ⟨"r"⟩, .iri Protocol.hasGraph, .iri ⟨"g"⟩⟩,
      ⟨.iri ⟨"g"⟩, .iri Protocol.hasSubject, .iri ⟨"z"⟩⟩,
      ⟨.iri ⟨"z"⟩, .iri ⟨"q"⟩, .iri ⟨"y"⟩⟩]
  resource := .iri ⟨"r"⟩

def template (first second : List String) : Document where
  store := .ofList
    ([⟨.iri ⟨"r"⟩, .iri Protocol.hasGraph, .iri ⟨"h"⟩⟩,
      ⟨.iri ⟨"r"⟩, .iri Protocol.hasGraph, .iri ⟨"k"⟩⟩,
      ⟨.iri ⟨"h"⟩, .iri Protocol.hasSubject, .iri ⟨"a"⟩⟩,
      ⟨.iri ⟨"k"⟩, .iri Protocol.hasSubject, .iri ⟨"b"⟩⟩] ++
      (first.map fun name => ⟨.iri ⟨"a"⟩, .iri Rdf.type, .iri ⟨name⟩⟩) ++
      second.map fun name => ⟨.iri ⟨"b"⟩, .iri Rdf.type, .iri ⟨name⟩⟩)
  resource := .iri ⟨"r"⟩

def options : Options :=
  { SecondGraph.options with closedWorldDefaults := false }

def pass (first second : List String) : Pass :=
  ⟨⟨(ontology.merge candidate.store).merge (template first second).store, 2⟩, candidate,
    template first second, options⟩

/-- The progress when a first graph is rejected for a class expression. -/
def abandoned (pass : Pass) (target : Expression) : Progress :=
  { Progress.start with
    translator := (Translator.new.translate pass.knowledge.reasoner target (.iri ⟨"z"⟩)).2 }

theorem tries_of_none {first second : List String} {target : Expression}
    (hsingle : (pass first second).Single (.iri ⟨"g"⟩) (.iri ⟨"h"⟩) (.iri ⟨"z"⟩) (.iri ⟨"a"⟩)
      target)
    (hgraphs : (template first second).graphs = [.iri ⟨"h"⟩, .iri ⟨"k"⟩])
    (hnone : (Translator.new.translate (pass first second).knowledge.reasoner target
      (.iri ⟨"z"⟩)).1.toOption = none) :
    (pass first second).Tries (.iri ⟨"g"⟩) (.iri ⟨"k"⟩) [.iri ⟨"h"⟩] [] .start
      (abandoned (pass first second) target) := by
  obtain ⟨failure, hfailure⟩ := hsingle.matchSubjects_error (p := .start) hnone
  constructor
  · rfl
  · rfl
  · exact hgraphs
  · exact .cons hfailure (.nil _)
  · exact Or.inl rfl

/-! #### A and B

Both classes are cyclic. On its own the second graph is rejected as well. -/

theorem reasoner_cyclic :
    (pass ["A"] ["B"]).knowledge.reasoner = (pass ["A"] ["B"]).knowledge.byName :=
  Knowledge.reasoner_eq_byName (by decide +kernel)

theorem single_A : (pass ["A"] ["B"]).Single (.iri ⟨"g"⟩) (.iri ⟨"h"⟩) (.iri ⟨"z"⟩) (.iri ⟨"a"⟩)
    (isA "A").1 :=
  ⟨rfl, rfl, rfl, rfl⟩

theorem single_B : (pass ["A"] ["B"]).Single (.iri ⟨"g"⟩) (.iri ⟨"k"⟩) (.iri ⟨"z"⟩) (.iri ⟨"b"⟩)
    (isA "B").1 :=
  ⟨rfl, rfl, rfl, rfl⟩

theorem tries_B : (pass ["A"] ["B"]).Tries (.iri ⟨"g"⟩) (.iri ⟨"k"⟩) [.iri ⟨"h"⟩] [] .start
    (abandoned (pass ["A"] ["B"]) (isA "A").1) := by
  apply tries_of_none single_A rfl
  rw [reasoner_cyclic]
  rfl

/-- Whether a pass accepts can depend on a graph that it rejects. -/
theorem not_forall_toOption_checked :
    ¬ ∀ (pass : Pass) (graph templateGraph : Term) (before after : List Term) (p q : Progress),
      pass.Tries graph templateGraph before after p q →
        pass.checked.toOption = (pass.offered [templateGraph]).toOption := by
  intro h
  have heq := h _ _ _ _ _ _ _ tries_B
  have hconsistent : (pass ["A"] ["B"]).knowledge.store.checkConsistency = .ok () :=
    Store.checkConsistency_of_silent (by decide +kernel)
  have hoffered := Pass.offered_eq_tryGraphs tries_B.resource tries_B.firstGraph hconsistent
  -- on its own the second graph is rejected
  have halone : (Translator.new.translate (pass ["A"] ["B"]).knowledge.reasoner (isA "B").1
      (.iri ⟨"z"⟩)).1.toOption = none := by
    rw [reasoner_cyclic]
    rfl
  obtain ⟨failure, hfailure⟩ := single_B.matchSubjects_error (p := .start) halone
  have hrejected : ((pass ["A"] ["B"]).offered [.iri ⟨"k"⟩]).toOption = none := by
    rw [hoffered, Pass.tryGraphs, hfailure]
    rfl
  -- after the first graph it is accepted
  have hafter : ((abandoned (pass ["A"] ["B"]) (isA "A").1).translator.translate
      (pass ["A"] ["B"]).knowledge.reasoner (isA "B").1 (.iri ⟨"z"⟩)).1.toOption = some [] := by
    rw [abandoned, reasoner_cyclic]
    rfl
  obtain ⟨s, hs⟩ : ∃ s, (pass ["A"] ["B"]).matchSubjects (.iri ⟨"g"⟩) (.iri ⟨"k"⟩)
      (abandoned (pass ["A"] ["B"]) (isA "A").1) =
        (.ok (Table.insert ∅ (.iri ⟨"z"⟩) (.required (.iri ⟨"b"⟩))), s) :=
    ⟨_, single_B.matchSubjects_ok hafter⟩
  have hobjects : Mapping.find?
      ((pass ["A"] ["B"]).knowledge.accepts (pass ["A"] ["B"]).options.objectKind)
      ((pass ["A"] ["B"]).candidate.objects (.iri ⟨"z"⟩))
      ((pass ["A"] ["B"]).template.objects (.iri ⟨"b"⟩)) =
        some (Table.insert ∅ (.iri ⟨"y"⟩) (.optional none)) := rfl
  obtain ⟨d, hd⟩ := Pass.Single.exists_finish_eq_ok (.iri ⟨"k"⟩) hobjects rfl s
  obtain ⟨failure', hfailure'⟩ := tries_B.skips.tryGraphs_eq [.iri ⟨"k"⟩]
    (missingGraph "template declares no graph")
  have haccepted : (pass ["A"] ["B"]).checked = .ok d := by
    rw [Pass.checked_eq_offered, hoffered, tries_B.templateGraphs, hfailure', Pass.tryGraphs, hs]
    exact hd
  rw [haccepted, hrejected] at heq
  exact absurd heq (by simp [Except.toOption])

/-! #### E and C, then E

Both graphs ask for E, which is acyclic; the first one is rejected because of C. -/

theorem reasoner_acyclic :
    (pass ["E", "C"] ["E"]).knowledge.reasoner = (pass ["E", "C"] ["E"]).knowledge.byName :=
  Knowledge.reasoner_eq_byName (by decide +kernel)

theorem single_EC : (pass ["E", "C"] ["E"]).Single (.iri ⟨"g"⟩) (.iri ⟨"h"⟩) (.iri ⟨"z"⟩)
    (.iri ⟨"a"⟩) (.meet [(isA "E").1, (isA "C").1]) :=
  ⟨rfl, rfl, rfl, rfl⟩

theorem tries_E : (pass ["E", "C"] ["E"]).Tries (.iri ⟨"g"⟩) (.iri ⟨"k"⟩) [.iri ⟨"h"⟩] [] .start
    (abandoned (pass ["E", "C"] ["E"]) (.meet [(isA "E").1, (isA "C").1])) := by
  apply tries_of_none single_EC rfl
  rw [reasoner_acyclic]
  rfl

/-- What the rejected graph left is used by the deciding one, without an effect. -/
theorem toOption_checked_of_tries_E :
    ∃ q, (pass ["E", "C"] ["E"]).Tries (.iri ⟨"g"⟩) (.iri ⟨"k"⟩) [.iri ⟨"h"⟩] [] .start q ∧
      q.translator.Knows (isA "E") ∧
      (∀ pair, q.translator.Knows pair →
        ((pass ["E", "C"] ["E"]).progressWith (.iri ⟨"g"⟩) (.iri ⟨"k"⟩) .start).translator.Knows
          pair → (pass ["E", "C"] ["E"]).knowledge.Acyclic pair) ∧
      (pass ["E", "C"] ["E"]).checked.toOption =
        ((pass ["E", "C"] ["E"]).offered [.iri ⟨"k"⟩]).toOption := by
  have hacyclic : ∀ pair, (abandoned (pass ["E", "C"] ["E"])
      (.meet [(isA "E").1, (isA "C").1])).translator.Knows pair →
        (pass ["E", "C"] ["E"]).knowledge.Acyclic pair := by
    have hkeys : ∀ pair ∈ (Translator.new.translate (pass ["E", "C"] ["E"]).knowledge.byName
        (.meet [(isA "E").1, (isA "C").1]) (.iri ⟨"z"⟩)).2.memo.entries.keys,
          (Translator.new.translate (pass ["E", "C"] ["E"]).knowledge.byName pair.1
            pair.2).2.memo.cycles = 0 := by decide +kernel
    intro pair hpair
    have hmem := mem_keys_of_knows hpair
    rw [abandoned, reasoner_acyclic] at hmem
    rw [Knowledge.Acyclic, reasoner_acyclic]
    exact hkeys pair hmem
  refine ⟨_, tries_E, ?_, fun pair hq _ => hacyclic pair hq, ?_⟩
  · rw [Translator.Knows, abandoned, reasoner_acyclic]
    decide +kernel
  · exact (Pass.toOption_checked_of_tries _ _ _ _ _ _ _ tries_E
      fun pair hq _ => hacyclic pair hq).2.2

end AbandonedGraph

end GraphConformance.Conformance
