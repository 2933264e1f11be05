import GraphConformance.Mapping.Kind

/-!
# Options of a pass

How strict a pass is, what it adds to the document that it accepts, and the phases that it goes
through.
-/

set_option autoImplicit false

namespace GraphConformance.Conformance

/-- How a pass is to be run. -/
structure Options where
  resourceKind : MappingKind
  subjectKind : MappingKind
  objectKind : MappingKind
  /-- Translate subjects and objects into the terms of the template. -/
  translate : Bool
  /-- Add the literals of the template where the instance has no value. -/
  closedWorldDefaults : Bool
  /-- Demand that both documents are about the same resource. -/
  strictResource : Bool
deriving DecidableEq, Repr

namespace Options

/-- The options when nothing else is asked for. -/
def default : Options where
  resourceKind := .subIfNotTop
  subjectKind := .sub
  objectKind := .subIfNotTop
  translate := true
  closedWorldDefaults := true
  strictResource := false

instance : Inhabited Options := ⟨default⟩

end Options

/-- A phase of a pass. -/
inductive Phase where
  | resourceCheck
  | graphSelection
  | subjectMapping
  | objectMapping
  | commit
deriving DecidableEq, Repr

namespace Phase

/-- The phases in order. -/
def all : List Phase :=
  [resourceCheck, graphSelection, subjectMapping, objectMapping, commit]

def name : Phase → String
  | resourceCheck => "resource_check"
  | graphSelection => "graph_selection"
  | subjectMapping => "subject_mapping"
  | objectMapping => "object_mapping"
  | commit => "translation_commit"

end Phase

end GraphConformance.Conformance
