import GraphConformance.Settings.Basic

/-!
# Switches of the command line

A switch is a parameter, which is followed by a value, or a flag, which is not, or a request for
help or for the version. Each has a long name, and some have a letter. Parameters understand some
values only: paths of files are not empty, kinds and formats have names.
-/

set_option autoImplicit false

namespace GraphConformance.CommandLine

/-- What is given by a value. -/
inductive Parameter where
  | template
  | candidate
  | ontology
  | resourceKind
  | subjectKind
  | objectKind
  | format
  | base
  | output
  | config
deriving DecidableEq, Repr

/-- What is given by a word alone. -/
inductive Flag where
  | noTranslate
  | noDefaults
  | strictResource
  | translatedOnly
  | printConfig
  | verbose
  | quiet
deriving DecidableEq, Repr

/-- What a name on the command line stands for. -/
inductive Switch where
  | parameter (p : Parameter)
  | flag (f : Flag)
  | help
  | version
deriving DecidableEq, Repr

namespace Parameter

/-- Whether a parameter may be given several times. -/
def isRepeatable (p : Parameter) : Bool := p = ontology

/-- Whether a parameter understands a value. -/
def admits (p : Parameter) (value : String) : Bool :=
  match p with
  | template | candidate | ontology | output | config => !value.isEmpty
  | resourceKind | subjectKind | objectKind => (MappingKind.ofName? value).isSome
  | format => (OutputFormat.ofName? value).isSome
  | base => true

end Parameter

namespace Switch

/-- The switches with their long names and letters. -/
def all : List (Switch × String × Option Char) :=
  [(.parameter .template, "template", some 't'), (.parameter .candidate, "instance", some 'i'),
    (.parameter .ontology, "ontology", none), (.parameter .resourceKind, "resource-kind", none),
    (.parameter .subjectKind, "subject-kind", none),
    (.parameter .objectKind, "object-kind", none), (.flag .noTranslate, "no-translate", none),
    (.flag .noDefaults, "no-defaults", none), (.flag .strictResource, "strict-resource", none),
    (.flag .translatedOnly, "translated-only", none), (.parameter .format, "format", some 'f'),
    (.parameter .base, "base", none), (.parameter .output, "output", some 'o'),
    (.parameter .config, "config", none), (.flag .printConfig, "print-config", none),
    (.flag .verbose, "verbose", some 'v'), (.flag .quiet, "quiet", some 'q'),
    (help, "help", some 'h'), (version, "version", some 'V')]

/-- The switch of a long name. -/
def ofName? (name : String) : Option Switch := (all.find? (·.2.1 = name)).map Prod.fst

/-- The switch of a letter. -/
def ofLetter? (letter : Char) : Option Switch :=
  (all.find? (·.2.2 = some letter)).map Prod.fst

end Switch

end GraphConformance.CommandLine
