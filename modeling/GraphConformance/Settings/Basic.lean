import GraphConformance.Conformance.Options
import GraphConformance.Knowledge.Imports
import GraphConformance.Table

/-!
# Settings

What a user may choose once for all passes: how documents are read and results written, the options
of a pass, the ontologies and the depth of reasoning, and prefixes known to every document. Formats
and levels have names, read without regard to letter case.
-/

set_option autoImplicit false

namespace GraphConformance

/-- How an accepted document is written. -/
inductive OutputFormat where
  | nTriples
  | json
deriving DecidableEq, Repr

namespace OutputFormat

/-- The formats in order. -/
def all : List OutputFormat := [nTriples, json]

def name : OutputFormat → String
  | nTriples => "ntriples"
  | json => "json"

/-- The format of a name or a short name. -/
def ofName? (name : String) : Option OutputFormat :=
  match Text.lowercase name with
  | "nt" | "ntriples" | "n-triples" => some nTriples
  | "json" => some json
  | _ => none

end OutputFormat

/-- How much is told about a run. -/
inductive LogLevel where
  | quiet
  | normal
  | verbose
  | debug
deriving DecidableEq, Repr

namespace LogLevel

/-- The levels in order. -/
def all : List LogLevel := [quiet, normal, verbose, debug]

def name : LogLevel → String
  | quiet => "quiet"
  | normal => "normal"
  | verbose => "verbose"
  | debug => "debug"

/-- The level of a name, an initial or a number. -/
def ofName? (name : String) : Option LogLevel :=
  match Text.lowercase name with
  | "quiet" | "q" | "0" => some quiet
  | "normal" | "n" | "1" => some normal
  | "verbose" | "v" | "2" => some verbose
  | "debug" | "d" | "3" => some debug
  | _ => none

/-- The messages of a level, as a filter on their sources and severities. -/
def filter : LogLevel → String
  | quiet => "off"
  | normal => "warn"
  | verbose => "rdg=debug"
  | debug => "rdg=trace"

end LogLevel

namespace Settings

/-- How documents are read and results written. -/
structure General where
  /-- What relative references are resolved against. -/
  baseUri : Option String
  format : OutputFormat
  logLevel : LogLevel
  color : Bool
deriving DecidableEq, Repr

/-- What is known and how deep it is searched. -/
structure Reasoning where
  maxDepth : Nat
  /-- The files of the ontologies. -/
  ontologies : List String
deriving DecidableEq, Repr

end Settings

/-- What a user may choose. -/
structure Settings where
  general : Settings.General
  validation : Conformance.Options
  reasoning : Settings.Reasoning
  prefixes : Table String String
deriving DecidableEq

namespace Settings

/-- The settings when nothing is chosen. -/
def default : Settings where
  general := ⟨none, .nTriples, .normal, true⟩
  validation := .default
  reasoning := ⟨KnowledgeBase.defaultMaxDepth, []⟩
  prefixes := ∅

instance : Inhabited Settings := ⟨default⟩

end Settings

end GraphConformance
