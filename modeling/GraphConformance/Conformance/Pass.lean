import GraphConformance.Conformance.Options
import GraphConformance.Document
import GraphConformance.Knowledge.Imports
import GraphConformance.Mapping.Search
import GraphConformance.Evidence.Translator

/-!
# A pass

A pass decides whether an instance document conforms to a template document, while both are imported
into the knowledge base. The knowledge has to be consistent, and the two resources have to
correspond. Then the graphs of the template are tried in order: in the first one whose subjects can
all be given instance subjects, the objects of each pair of subjects are mapped in turn. The pass
accepts unless every pair of subjects fails at its objects.

On the way the pass collects default values and translated statements in its `Progress`. What a
graph, an optional subject or the objects of a subject contributed is taken back when it fails; what
the translator remembers is kept.
-/

set_option autoImplicit false

namespace GraphConformance.Conformance

open Vocabulary Text

/-- What a pass starts from. -/
structure Pass where
  knowledge : Knowledge
  candidate : Document
  template : Document
  options : Options

/-- What a pass has collected. -/
structure Progress where
  defaults : List Triple
  translated : List Triple
  translator : Translator

/-- An accepted document. -/
structure Accepted where
  /-- The instance's statements, the defaults and what was translated. -/
  document : Store
  translated : List Triple
  /-- The graph of the template that was matched. -/
  graph : Term
  subjects : Mapping
  /-- The mapping of the objects of each subject whose objects passed. -/
  objects : Table Term Mapping

/-- Nothing collected. -/
def Progress.start : Progress := ⟨[], [], .new⟩

/-- The progress with the statements of an earlier one, and what was remembered since. -/
def Progress.rollBack (p earlier : Progress) : Progress :=
  { earlier with translator := p.translator }

/-- The result of a part of a pass, and the progress after it. -/
abbrev Step (α : Type) := Except Failure α × Progress

/-- The failure of a document without graph. -/
def missingGraph (explanation : String) : Failure :=
  .plain .graphSelection .missingGraph explanation

/-- The failure of a question about an individual that the knowledge base refuses. -/
def refused (individual : Term) (e : Knowledge.QueryError) : Failure :=
  { Failure.ofQueryError .restriction e with individual := some individual }

namespace Pass

/-! ## Defaults and memberships -/

/-- Whether an edge of the template gives a default value to an individual of the instance: it leads
to a literal by a property of content for which the individual has no value. -/
def isDefault (pass : Pass) (individual : Term) (edge : Edge) : Bool :=
  match edge with
  | (.iri property, .literal _) =>
    !isReserved property && (pass.candidate.store.object? individual property).isNone
  | _ => false

/-- The default values that a template individual gives to an instance individual. -/
def defaults (pass : Pass) (individual template : Term) : List Triple :=
  ((pass.template.store.outgoing template).filter (pass.isDefault individual)).map
    fun (property, value) => ⟨individual, property, value⟩

/-- Collect the default values of a pair, if the options ask for them. -/
def addDefaults (pass : Pass) (individual template : Term) (p : Progress) : Progress :=
  if pass.options.closedWorldDefaults then
    { p with defaults := Distinct.union p.defaults (pass.defaults individual template) }
  else p

/-- Translate an instance individual against the types of a template individual. -/
def translate (pass : Pass) (individual template : Term) (p : Progress) : Step (List Triple) :=
  match pass.knowledge.typeProfile template with
  | .error e => (.error (refused template e), p)
  | .ok target =>
    let (verdict, translator) :=
      p.translator.translate pass.knowledge.reasoner target individual
    (verdict, { p with translator := translator })

/-- The statements that give an individual the types of a template individual. -/
def copiedTypes (pass : Pass) (individual template : Term) : List Triple :=
  let types := (pass.template.store.types template).filter fun t => !t.isReserved && t ≠ template
  Distinct.dedup (types.map fun t => ⟨individual, .iri Rdf.type, t⟩)

/-! ## Resources -/

/-- The resources of the two documents have to correspond. -/
def checkResource (pass : Pass) (p : Progress) : Step Unit :=
  let individual := pass.candidate.resource
  let template := pass.template.resource
  let mismatch (explanation : String) : Failure :=
    ⟨.resourceCheck, .resourceMismatch, some individual, none, explanation⟩
  if individual ≠ template ∧ pass.options.strictResource then
    (.error (mismatch
      ("instance resource " ++ individual.display ++ " is not " ++ template.display)), p)
  else if pass.knowledge.accepts pass.options.resourceKind individual template then
    (.ok (), pass.addDefaults individual template p)
  else
    (.error (mismatch
      ("instance resource " ++ individual.shortName ++ " does not map to " ++ template.shortName ++
        " under " ++ pass.options.resourceKind.name)), p)

/-! ## Subjects -/

/-- Fill in the default values of a pair of subjects and translate it. A subject that is optional is
skipped when it cannot be translated. -/
def passSubject (pass : Pass) (required : Bool) (individual template : Term) (p : Progress) :
    Step Unit :=
  let filled := pass.addDefaults individual template p
  if pass.options.translate then
    match pass.translate individual template filled with
    | (.ok statements, q) =>
      (.ok (), { q with translated := Distinct.union q.translated statements })
    | (.error failure, q) =>
      if required then (.error failure, q) else (.ok (), q.rollBack p)
  else (.ok (), filled)

/-- Pass pairs of subjects in order, up to the first failure. -/
def passSubjects (pass : Pass) (mapping : Mapping) : List (Term × Term) → Progress → Step Unit
  | [], p => (.ok (), p)
  | (individual, template) :: rest, p =>
    match pass.passSubject (mapping.isRequired individual) individual template p with
    | (.error failure, p) => (.error failure, p)
    | (.ok _, p) => pass.passSubjects mapping rest p

/-- Map the subjects of a graph of the instance to those of a graph of the template. -/
def matchSubjects (pass : Pass) (graph templateGraph : Term) (p : Progress) : Step Mapping :=
  let individuals := pass.candidate.subjects graph
  let templates := pass.template.subjects templateGraph
  let kind := pass.options.subjectKind
  match Mapping.find? (pass.knowledge.accepts kind) individuals templates with
  | none =>
    (.error (.plain .subjectMapping .structuralMapping
      ("no valid subject mapping from " ++ decimalText individuals.length ++ " instance to " ++
        decimalText templates.length ++ " template subjects under " ++ kind.name)), p)
  | some mapping =>
    match pass.passSubjects mapping mapping.pairs p with
    | (.error failure, p) => (.error failure, p)
    | (.ok _, p) => (.ok mapping, p)

/-! ## Objects -/

/-- The statements for a pair of objects: those of its membership when the object has a type of its
own, and otherwise the types of the template's object. -/
def objectStatements (pass : Pass) (individual template : Term) (p : Progress) :
    Step (List Triple) :=
  match pass.knowledge.typeProfile individual with
  | .error e => (.error (refused individual e), p)
  | .ok profile =>
    if profile = .top then (.ok (pass.copiedTypes individual template), p)
    else pass.translate individual template p

/-- Default values and statements of pairs of objects, up to the first failure. -/
def passObjects (pass : Pass) : List (Term × Term) → List Triple → Progress → Step (List Triple)
  | [], statements, p => (.ok statements, p)
  | (individual, template) :: rest, statements, p =>
    let filled := pass.addDefaults individual template p
    if pass.options.translate then
      match pass.objectStatements individual template filled with
      | (.error failure, q) => (.error failure, q)
      | (.ok found, q) => pass.passObjects rest (Distinct.union statements found) q
    else pass.passObjects rest statements filled

/-- Map the objects of a pair of subjects; answers the mapping and the statements found. -/
def matchObjectsOf (pass : Pass) (subject template : Term) (p : Progress) :
    Step (Mapping × List Triple) :=
  let kind := pass.options.objectKind
  match Mapping.find? (pass.knowledge.accepts kind) (pass.candidate.objects subject)
      (pass.template.objects template) with
  | none =>
    (.error
      ⟨.objectMapping, .structuralMapping, some subject, none,
        "no valid object mapping for subject " ++ subject.shortName ++ " under " ++ kind.name⟩, p)
  | some mapping =>
    match pass.passObjects mapping.pairs [] p with
    | (.error failure, p) => (.error failure, p)
    | (.ok statements, p) => (.ok (mapping, statements), p)

/-- Map the objects of pairs of subjects. A pair that fails contributes nothing; the last failure is
kept. -/
def matchObjects (pass : Pass) :
    List (Term × Term) → Table Term Mapping → Option Failure → Progress →
      (Table Term Mapping × Option Failure) × Progress
  | [], mapped, failure, p => ((mapped, failure), p)
  | (subject, template) :: rest, mapped, failure, p =>
    match pass.matchObjectsOf subject template p with
    | (.ok (mapping, statements), q) =>
      pass.matchObjects rest (mapped.insert subject mapping) failure
        { q with translated := Distinct.union q.translated statements }
    | (.error failure, q) => pass.matchObjects rest mapped (some failure) (q.rollBack p)

/-! ## Graphs and the whole pass -/

/-- The accepted document: the instance with what was collected. -/
def commit (pass : Pass) (graph : Term) (subjects : Mapping) (objects : Table Term Mapping)
    (p : Progress) : Accepted where
  document := (pass.candidate.store.insertAll p.defaults).insertAll p.translated
  translated := p.translated
  graph := graph
  subjects := subjects
  objects := objects

/-- Finish with a graph of the template whose subjects are mapped. -/
def finish (pass : Pass) (graph : Term) (subjects : Mapping) (p : Progress) :
    Except Failure Accepted :=
  match pass.matchObjects subjects.pairs ∅ none p with
  -- one pair of subjects that passes is enough
  | ((⟨[], _⟩, some failure), _) => .error failure
  | ((objects, _), p) => .ok (pass.commit graph subjects objects p)

/-- Try graphs of the template in order; the last failure counts when all of them fail. -/
def tryGraphs (pass : Pass) (graph : Term) :
    List Term → Failure → Progress → Except Failure Accepted
  | [], failure, _ => .error failure
  | templateGraph :: rest, _, p =>
    match pass.matchSubjects graph templateGraph p with
    -- the first graph whose subjects match decides
    | (.ok subjects, q) => pass.finish templateGraph subjects q
    | (.error failure, q) => pass.tryGraphs graph rest failure (q.rollBack p)

/-- The pass over knowledge that is consistent. -/
def run (pass : Pass) : Except Failure Accepted :=
  match pass.checkResource .start with
  | (.error failure, _) => .error failure
  | (.ok _, p) =>
    match pass.candidate.graphs with
    | [] => .error (missingGraph "instance declares no graph")
    | graph :: _ =>
      pass.tryGraphs graph pass.template.graphs (missingGraph "template declares no graph") p

/-- The pass, after the knowledge is found to be consistent. -/
def checked (pass : Pass) : Except Failure Accepted :=
  match pass.knowledge.store.checkConsistency with
  | .error e => .error (.ofQueryError .consistency e)
  | .ok _ => pass.run

end Pass

/-- Whether an instance document conforms to a template document, over an ontology of its own. -/
def conform (ontology : Store) (maxDepth : Nat) (individual template : Document)
    (options : Options) : Except Failure Accepted :=
  Pass.checked
    ⟨⟨(ontology.merge individual.store).merge template.store, maxDepth⟩, individual, template,
      options⟩

end Conformance

namespace KnowledgeBase

open Conformance

/-- Whether an instance document conforms to a template document; refused while an import is active.
Both are imported during the pass. -/
def conform? (kb : KnowledgeBase) (individual template : Document) (options : Options) :
    Option (Except Failure Accepted × KnowledgeBase) :=
  kb.withImported? [individual.store, template.store] fun kb =>
    (Pass.checked ⟨kb.knowledge, individual, template, options⟩, kb)

/-- On a knowledge base that holds an ontology alone, the answer is that of `conform`. -/
theorem conform?_ofOntology (ontology : Store) (maxDepth : Nat) (individual template : Document)
    (options : Options) :
    ((ofOntology ontology maxDepth).conform? individual template options).map Prod.fst =
      some (conform ontology maxDepth individual template options) := rfl

end KnowledgeBase

end GraphConformance
