import GraphConformance.CommandLine.Arguments
import GraphConformance.CommandLine.Help
import GraphConformance.Conformance.Output
import GraphConformance.Report.Conversion
import GraphConformance.Settings.Search
import GraphConformance.Settings.Write

/-!
# Runs of the program

A run reads the arguments, finds the settings, reads the ontologies and the two documents, and
writes the accepted document, or a report when it is rejected. `run` says what a run prints and how
it ends; files and variables are reached through an `Access` alone.
-/

set_option autoImplicit false

namespace GraphConformance.CommandLine

open File (Access)

/-- What a run prints and how it ends. -/
structure Outcome where
  status : Nat
  output : String
  errors : String
deriving DecidableEq, Repr

/-- Why a run ends before there is a verdict. -/
structure Trouble where
  message : String
  cause : Option String

/-- A text with each of its lines moved to the right. -/
def indented (text : String) : String :=
  "    " ++ String.ofList (text.toList.flatMap fun c => if c = '\n' then "\n    ".toList else [c])

/-- The text of a trouble. -/
def Trouble.display (t : Trouble) : String :=
  let cause := match t.cause with
    | some cause => "\n\nCaused by:\n" ++ indented cause
    | none => ""
  "Error: " ++ t.message ++ cause ++ "\n"

variable {m : Type → Type} [Monad m]

/-- The trouble that settings make. -/
def ofSettings {α : Type} (found : m (Except Settings.Error α)) : ExceptT Trouble m α :=
  (ExceptT.mk found).adapt fun e => ⟨e.message, none⟩

/-- The trouble with a file that is read for a purpose. -/
def ofReport {α : Type} (purpose path : String) (found : m (Except Report α)) :
    ExceptT Trouble m α :=
  (ExceptT.mk found).adapt fun r => ⟨"Failed to load " ++ purpose ++ ": " ++ path, some r.display⟩

/-! ## Documents -/

/-- The triples of a text, the first number not used for a blank node, and the report when there is
an error in the text. -/
def storeOf (s : Settings) (nextBlank : Nat) (path text : String) : Except Report (Store × Nat) :=
  let start := (Turtle.State.initial nextBlank (s.general.baseUri.map Iri.mk)).declareAll
    s.prefixes.entries
  match start.readDocument text with
  | (st, .ok _) => .ok (st.store, st.nextBlank)
  | (_, .error e) => .error ((Report.ofParseError e).withLocation path)

/-- The triples of a file. -/
def readStore (access : Access m) (s : Settings) (nextBlank : Nat) (path : String) :
    m (Except Report (Store × Nat)) := do
  match ← access.read path with
  | .error e => return .error ((Report.ofFileError e).withField "path" path)
  | .ok text => return storeOf s nextBlank path text

/-- The document of a file. -/
def readDocument (access : Access m) (s : Settings) (nextBlank : Nat) (path : String) :
    m (Except Report (Document × Nat)) := do
  match ← readStore access s nextBlank path with
  | .error r => return .error r
  | .ok (store, nextBlank) =>
    match Document.discover store with
    | .ok d => return .ok (d, nextBlank)
    | .error e => return .error ((Report.ofDocumentError e).withLocation path)

/-- The triples of all ontologies. -/
def readOntologies (access : Access m) (s : Settings) :
    List String → Store → Nat → ExceptT Trouble m (Store × Nat)
  | [], ontology, nextBlank => return (ontology, nextBlank)
  | path :: rest, ontology, nextBlank => do
    let (store, nextBlank) ← ofReport "ontology" path (readStore access s nextBlank path)
    readOntologies access s rest (ontology.merge store) nextBlank

/-! ## Runs -/

/-- The end of a run that has something to say: on the output, or in a file. -/
def deliver (access : Access m) (file : Option String) (text : String) :
    ExceptT Trouble m Outcome := do
  match file with
  | none => return ⟨0, text, ""⟩
  | some path =>
    match ← access.write path text with
    | .ok () => return ⟨0, "", ""⟩
    | .error e => throw ⟨"Failed to write output file: " ++ path, some e.message⟩

/-- Check a document against a template. -/
def check (access : Access m) (a : Arguments) (s : Settings) (template candidate : String) :
    ExceptT Trouble m Outcome := do
  let (ontology, next) ← readOntologies access s s.reasoning.ontologies ∅ 0
  let (templateDocument, next) ←
    ofReport "template" template (readDocument access s next template)
  let (document, _) ← ofReport "instance" candidate (readDocument access s next candidate)
  let depth := s.reasoning.maxDepth
  match Conformance.conform ontology depth document templateDocument s.validation with
  | .ok accepted => deliver access a.output (accepted.written s.general.format a.translatedOnly)
  | .error failure =>
    let r := Report.ofFailure failure
    return ⟨r.exitStatus, "", r.toJson.pretty ++ "\n"⟩

/-- Do what the arguments ask for. -/
def perform (access : Access m) (a : Arguments) : ExceptT Trouble m Outcome := do
  let s := a.adjust (← ofSettings (Settings.find access a.config))
  match a.task with
  | .printSettings => return ⟨0, ← ofSettings (pure s.written), ""⟩
  | .check template candidate => check access a s template candidate

/-- A run with its arguments. -/
def run (access : Access m) (arguments : List String) : m Outcome := do
  match Arguments.read arguments with
  | .error .help => return ⟨0, helpText, ""⟩
  | .error .version => return ⟨0, versionText, ""⟩
  | .error (.usage e) =>
    return ⟨2, "", "error: " ++ e.message ++ "\n\nFor more information, try '--help'.\n"⟩
  | .ok a =>
    match ← (perform access a).run with
    | .ok outcome => return outcome
    | .error trouble => return ⟨1, "", trouble.display⟩

end GraphConformance.CommandLine
