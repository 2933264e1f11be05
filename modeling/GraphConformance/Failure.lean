import GraphConformance.Json.Basic
import GraphConformance.Knowledge.Error

/-!
# Failures

A pass that rejects its documents ends in a `Failure`: the stage that gave up, what went wrong, the
individual and the class at hand, and an explanation. A violated restriction may hold the failure
of a filler as its cause, and an exhausted union holds one failure for each branch.

`Failure.toJson` lists all of it: the fields that a failure has not are left out.
-/

set_option autoImplicit false

namespace GraphConformance

/-- A stage of a pass. -/
inductive Stage where
  | resourceCheck
  | graphSelection
  | subjectMapping
  | objectMapping
  | restriction
  | consistency
deriving DecidableEq, Repr

namespace Stage

/-- The stages in order. -/
def all : List Stage :=
  [resourceCheck, graphSelection, subjectMapping, objectMapping, restriction, consistency]

def name : Stage → String
  | resourceCheck => "resource_check"
  | graphSelection => "graph_selection"
  | subjectMapping => "subject_mapping"
  | objectMapping => "object_mapping"
  | restriction => "restriction"
  | consistency => "consistency"

end Stage

/-- A restriction of the values of a property. -/
inductive Restriction where
  | someValuesFrom
  | allValuesFrom
  | minCardinality
  | maxCardinality
  | exactCardinality
  | hasSelf
deriving DecidableEq, Repr

namespace Restriction

/-- The restrictions in order. -/
def all : List Restriction :=
  [someValuesFrom, allValuesFrom, minCardinality, maxCardinality, exactCardinality, hasSelf]

def name : Restriction → String
  | someValuesFrom => "some_values_from"
  | allValuesFrom => "all_values_from"
  | minCardinality => "min_cardinality"
  | maxCardinality => "max_cardinality"
  | exactCardinality => "exact_cardinality"
  | hasSelf => "has_self"

end Restriction

/-- What went wrong, over the type of the failures that it may hold. -/
inductive FailureKind (φ : Type) where
  /-- No admissible pairing of individuals exists. -/
  | structuralMapping
  /-- The resources of the two documents do not correspond. -/
  | resourceMismatch
  /-- A document declares no graph. -/
  | missingGraph
  | restrictionViolation (restriction : Restriction) (property : Term) (expected observed : Nat)
      (cause : Option φ)
  /-- Every branch of a union fails. -/
  | unionExhausted (branches : List φ)
  /-- The individual satisfies what it must not. -/
  | complementViolation
  /-- The individual is no member of a class without definition. -/
  | notAMember
  /-- The class is empty. -/
  | unsatisfiable
  | unknownIndividual
  | inconsistent (reason : String)
deriving Repr

namespace FailureKind

variable {φ : Type}

def name : FailureKind φ → String
  | structuralMapping => "structural_mapping"
  | resourceMismatch => "resource_mismatch"
  | missingGraph => "missing_graph"
  | restrictionViolation .. => "restriction_violation"
  | unionExhausted _ => "union_exhausted"
  | complementViolation => "complement_violation"
  | notAMember => "not_a_member"
  | unsatisfiable => "unsatisfiable"
  | unknownIndividual => "unknown_individual"
  | inconsistent _ => "inconsistent"

/-- The property of a violated restriction. -/
def property? : FailureKind φ → Option Term
  | restrictionViolation _ property _ _ _ => some property
  | _ => none

end FailureKind

/-- Why a pass rejects its documents. -/
structure Failure where
  stage : Stage
  kind : FailureKind Failure
  individual : Option Term
  inClass : Option Term
  explanation : String

namespace Failure

/-- A failure without individual and class. -/
def plain (stage : Stage) (kind : FailureKind Failure) (explanation : String) : Failure :=
  ⟨stage, kind, none, none, explanation⟩

/-- The failure of a stage at which the knowledge base refuses a question. -/
def ofQueryError (stage : Stage) (e : Knowledge.QueryError) : Failure :=
  match e with
  | .unknownIndividual _ => plain stage .unknownIndividual e.message
  | .inconsistent reason => plain stage (.inconsistent reason) e.message

/-- The failure moved to another stage. -/
def atStage (f : Failure) (stage : Stage) : Failure := { f with stage := stage }

/-- The property of a violated restriction. -/
def property? (f : Failure) : Option Term := f.kind.property?

/-- The text of a failure: its stage and its explanation. -/
def message (f : Failure) : String := f.stage.name ++ " failure: " ++ f.explanation

/-- A field for a term, left out without one. -/
def termField (key : String) : Option Term → List (String × Json)
  | some t => [(key, .string t.display)]
  | none => []

mutual

/-- All that a failure says. -/
def toJson : Failure → Json
  | ⟨stage, kind, individual, inClass, explanation⟩ =>
    Json.ofFields <|
      [("stage", .string stage.name), ("kind", .string kind.name),
        ("explanation", .string explanation)] ++ termField "individual" individual ++
        termField "class" inClass ++ kindFields kind

/-- What a kind of failure adds. -/
def kindFields : FailureKind Failure → List (String × Json)
  | .restrictionViolation restriction property expected observed cause =>
    [("restriction", .string restriction.name), ("property", .string property.display),
      ("expected", .nat expected), ("observed", .nat observed)] ++ causeFields cause
  | .unionExhausted branches => [("branches", .array (branchesJson branches))]
  | .inconsistent reason => [("reason", .string reason)]
  | _ => []

/-- The field for a cause. -/
def causeFields : Option Failure → List (String × Json)
  | some cause => [("cause", cause.toJson)]
  | none => []

/-- The branches of a union. -/
def branchesJson : List Failure → List Json
  | [] => []
  | branch :: rest => branch.toJson :: branchesJson rest

end

mutual

/-- The explanations of the causes of a failure, outermost first. -/
def causes : Failure → List String
  | ⟨_, kind, _, _, _⟩ => kindCauses kind

def kindCauses : FailureKind Failure → List String
  | .restrictionViolation _ _ _ _ cause => causeTexts cause
  | _ => []

def causeTexts : Option Failure → List String
  | some cause => cause.explanation :: cause.causes
  | none => []

end

end Failure

end GraphConformance
