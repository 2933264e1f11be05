import GraphConformance.Json.Print
import GraphConformance.Report.Code
import GraphConformance.Table

/-!
# Reports

A `Report` is what a user is told when the work does not end in an accepted document: a code, a
message, what is known of the circumstances, a hint, and for a rejection the failure in structured
form. `Report.display` is its text and `Report.toJson` its structured form, where parts that are
empty are left out.
-/

set_option autoImplicit false

namespace GraphConformance

open Report (Code)

/-- What a user is told. -/
structure Report where
  code : Code
  message : String
  /-- What is known of the circumstances, by name. -/
  fields : Table String String
  location : Option String
  /-- What led to the error, outermost first. -/
  causes : List String
  hint : Option String
  failure : Option Json

namespace Report

/-- A report without further circumstances. -/
def plain (code : Code) (message : String) : Report :=
  ⟨code, message, ∅, none, [], none, none⟩

def withCode (r : Report) (code : Code) : Report := { r with code := code }

def withField (r : Report) (key value : String) : Report :=
  { r with fields := r.fields.insert key value }

def withCause (r : Report) (cause : String) : Report := { r with causes := r.causes ++ [cause] }

def withLocation (r : Report) (location : String) : Report := { r with location := some location }

def withHint (r : Report) (hint : String) : Report := { r with hint := some hint }

/-- Whether the report says that the documents were rejected. -/
def isRejection (r : Report) : Bool := r.failure.isSome || r.code.isRejection

/-- The exit status of a program that ends with the report. -/
def exitStatus (r : Report) : Nat := if r.isRejection then 2 else r.code.exitStatus

/-- The text of a report. -/
def display (r : Report) : String :=
  let location := match r.location with
    | some place => " at " ++ place
    | none => ""
  let causes := match r.causes with
    | [] => ""
    | causes => "\nCaused by:" ++ String.join (causes.map ("\n  - " ++ ·))
  let hint := match r.hint with
    | some hint => "\nHint: " ++ hint
    | none => ""
  "[" ++ Text.decimalText r.code.number ++ "] " ++ r.message ++ location ++ causes ++ hint

/-- A field for a list of fields, left out when they are none. -/
def groupField (key : String) : List (String × Json) → List (String × Json)
  | [] => []
  | fields => [(key, Json.ofFields fields)]

/-- A field for a text, left out without one. -/
def textField (key : String) : Option String → List (String × Json)
  | some text => [(key, .string text)]
  | none => []

/-- The structured form of a report. -/
def toJson (r : Report) : Json :=
  let causes := match r.causes with
    | [] => []
    | causes => [("causes", Json.strings causes)]
  let circumstances :=
    groupField "fields" (r.fields.entries.map fun (key, value) => (key, .string value)) ++
      textField "location" r.location ++ causes
  let failure := match r.failure with
    | some failure => [("failure", failure)]
    | none => []
  Json.ofFields <|
    [("code", .string r.code.name), ("message", .string r.message)] ++
      groupField "context" circumstances ++ textField "hint" r.hint ++ failure

end Report

end GraphConformance
