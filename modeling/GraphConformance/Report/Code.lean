/-!
# Report codes

Every report carries a code. The thousands of its number tell what part of the work it belongs to:
reading (1), documents (2), the knowledge base (3), conformance (4), settings (7), files (8) and
what should not happen (9). A code of the fourth thousand says that the documents were rejected,
every other one that the work could not be done.
-/

set_option autoImplicit false

namespace GraphConformance.Report

inductive Code where
  | parseError
  | invalidSyntax
  | undefinedPrefix
  | unexpectedEnd
  | documentError
  | noResource
  | ambiguousResource
  | unknownResource
  | reasonerError
  | unknownIndividual
  | inconsistent
  | validationFailed
  | structuralMapping
  | resourceMismatch
  | missingGraph
  | restrictionViolation
  | unionExhausted
  | complementViolation
  | notAMember
  | unsatisfiable
  | configError
  | configNotFound
  | invalidConfigSyntax
  | invalidConfigValue
  | ioError
  | fileNotFound
  | fileAccessDenied
  | internalError
deriving DecidableEq, Repr

namespace Code

/-- All codes by rising number. -/
def all : List Code :=
  [parseError, invalidSyntax, undefinedPrefix, unexpectedEnd, documentError, noResource,
    ambiguousResource, unknownResource, reasonerError, unknownIndividual, inconsistent,
    validationFailed, structuralMapping, resourceMismatch, missingGraph, restrictionViolation,
    unionExhausted, complementViolation, notAMember, unsatisfiable, configError, configNotFound,
    invalidConfigSyntax, invalidConfigValue, ioError, fileNotFound, fileAccessDenied, internalError]

def number : Code → Nat
  | parseError => 1000
  | invalidSyntax => 1001
  | undefinedPrefix => 1002
  | unexpectedEnd => 1003
  | documentError => 2000
  | noResource => 2001
  | ambiguousResource => 2002
  | unknownResource => 2003
  | reasonerError => 3000
  | unknownIndividual => 3001
  | inconsistent => 3002
  | validationFailed => 4000
  | structuralMapping => 4001
  | resourceMismatch => 4002
  | missingGraph => 4003
  | restrictionViolation => 4004
  | unionExhausted => 4005
  | complementViolation => 4006
  | notAMember => 4007
  | unsatisfiable => 4008
  | configError => 7000
  | configNotFound => 7001
  | invalidConfigSyntax => 7002
  | invalidConfigValue => 7003
  | ioError => 8000
  | fileNotFound => 8001
  | fileAccessDenied => 8002
  | internalError => 9000

/-- The name of a code in structured reports. -/
def name : Code → String
  | parseError => "PARSE_ERROR"
  | invalidSyntax => "INVALID_SYNTAX"
  | undefinedPrefix => "UNDEFINED_PREFIX"
  | unexpectedEnd => "UNEXPECTED_EOF"
  | documentError => "DOCUMENT_ERROR"
  | noResource => "NO_RESOURCE"
  | ambiguousResource => "AMBIGUOUS_RESOURCE"
  | unknownResource => "UNKNOWN_RESOURCE"
  | reasonerError => "REASONER_ERROR"
  | unknownIndividual => "UNKNOWN_INDIVIDUAL"
  | inconsistent => "INCONSISTENT"
  | validationFailed => "VALIDATION_FAILED"
  | structuralMapping => "STRUCTURAL_MAPPING"
  | resourceMismatch => "RESOURCE_MISMATCH"
  | missingGraph => "MISSING_GRAPH"
  | restrictionViolation => "RESTRICTION_VIOLATION"
  | unionExhausted => "UNION_EXHAUSTED"
  | complementViolation => "COMPLEMENT_VIOLATION"
  | notAMember => "NOT_A_MEMBER"
  | unsatisfiable => "UNSATISFIABLE"
  | configError => "CONFIG_ERROR"
  | configNotFound => "CONFIG_NOT_FOUND"
  | invalidConfigSyntax => "INVALID_CONFIG_SYNTAX"
  | invalidConfigValue => "INVALID_CONFIG_VALUE"
  | ioError => "IO_ERROR"
  | fileNotFound => "FILE_NOT_FOUND"
  | fileAccessDenied => "FILE_ACCESS_DENIED"
  | internalError => "INTERNAL_ERROR"

def description : Code → String
  | parseError => "Parse error"
  | invalidSyntax => "Invalid Turtle syntax"
  | undefinedPrefix => "Undefined prefix"
  | unexpectedEnd => "Unexpected end of input"
  | documentError => "Document error"
  | noResource => "No resource declared"
  | ambiguousResource => "Ambiguous resource"
  | unknownResource => "Unknown resource"
  | reasonerError => "Reasoner error"
  | unknownIndividual => "Unknown individual"
  | inconsistent => "Inconsistent knowledge base"
  | validationFailed => "Validation failed"
  | structuralMapping => "No structural mapping"
  | resourceMismatch => "Resource mismatch"
  | missingGraph => "Missing graph"
  | restrictionViolation => "Restriction violated"
  | unionExhausted => "No union branch holds"
  | complementViolation => "Complement violated"
  | notAMember => "Not a member"
  | unsatisfiable => "Unsatisfiable class"
  | configError => "Configuration error"
  | configNotFound => "Configuration file not found"
  | invalidConfigSyntax => "Invalid configuration syntax"
  | invalidConfigValue => "Invalid configuration value"
  | ioError => "IO error"
  | fileNotFound => "File not found"
  | fileAccessDenied => "File access denied"
  | internalError => "Internal error"

/-- The code of a name. -/
def ofName? (name : String) : Option Code := all.find? (·.name = name)

/-- Whether the code says that the documents were rejected. -/
def isRejection (c : Code) : Bool := c.number / 1000 = 4

/-- The exit status of a program that ends with the code. -/
def exitStatus (c : Code) : Nat := if c.isRejection then 2 else 1

end Code

end GraphConformance.Report
