import GraphConformance.Document
import GraphConformance.Failure
import GraphConformance.File.Error
import GraphConformance.Knowledge.Error
import GraphConformance.Report.Basic
import GraphConformance.Settings.Error

/-!
# Reports of errors and failures

Each error of the library has a report, with its own code and what the error knows as fields.
-/

set_option autoImplicit false

namespace GraphConformance.Report

/-- The report of a text that cannot be read. -/
def ofParseError (e : Turtle.ParseError) : Report :=
  match e with
  | .malformed position _ =>
    (plain .invalidSyntax e.message).withField "position" (Text.decimalText position)
  | .undefinedPrefix name =>
    ((plain .undefinedPrefix e.message).withField "prefix" name).withHint
      "Declare the prefix with @prefix or in the [prefixes] configuration"
  | .unexpectedEnd => plain .unexpectedEnd e.message

/-- The report of a text that gives no document. -/
def ofDocumentError (e : DocumentError) : Report :=
  match e with
  | .noResource => (plain .noResource e.message).withHint "Type the resource node as rdg:Resource"
  | .ambiguousResource count =>
    (plain .ambiguousResource e.message).withField "count" (Text.decimalText count)
  | .unknownResource resource =>
    (plain .unknownResource e.message).withField "resource" resource.display
  | .unreadable e => ofParseError e

/-- The report of a question that the knowledge base refuses. -/
def ofQueryError (e : Knowledge.QueryError) : Report :=
  match e with
  | .unknownIndividual individual =>
    (plain .unknownIndividual e.message).withField "individual" individual.display
  | .inconsistent _ => plain .inconsistent e.message

/-- The report of settings that cannot be read or written. -/
def ofSettingsError (e : Settings.Error) : Report :=
  match e with
  | .unreadable .. => plain .configNotFound e.message
  | .malformed .. => plain .invalidConfigSyntax e.message
  | .unwritable _ => plain .configError e.message

/-- The report of a file that cannot be read or written. -/
def ofFileError (e : File.Error) : Report :=
  match e.kind with
  | .notFound => plain .fileNotFound e.message
  | .accessDenied => plain .fileAccessDenied e.message
  | .other => plain .ioError e.message

/-- The report of a text that is no structured value. -/
def ofJsonError (reason : String) : Report :=
  (plain .internalError reason).withField "format" "JSON"

/-- The report of a text that is no settings file. -/
def ofTomlError (reason : String) : Report := plain .invalidConfigSyntax reason

/-- The code of a kind of failure. -/
def codeOf {φ : Type} : FailureKind φ → Code
  | .structuralMapping => .structuralMapping
  | .resourceMismatch => .resourceMismatch
  | .missingGraph => .missingGraph
  | .restrictionViolation .. => .restrictionViolation
  | .unionExhausted _ => .unionExhausted
  | .complementViolation => .complementViolation
  | .notAMember => .notAMember
  | .unsatisfiable => .unsatisfiable
  | .unknownIndividual => .unknownIndividual
  | .inconsistent _ => .inconsistent

/-- A field for a term, when there is one. -/
def withTerm (r : Report) (key : String) : Option Term → Report
  | some t => r.withField key t.display
  | none => r

/-- The report of a rejection. -/
def ofFailure (f : Failure) : Report :=
  let r := plain (codeOf f.kind) f.explanation
  let r := (r.withField "stage" f.stage.name).withField "kind" f.kind.name
  let r := (r.withTerm "individual" f.individual).withTerm "class" f.inClass
  { r with causes := f.causes, failure := some f.toJson }

end GraphConformance.Report
