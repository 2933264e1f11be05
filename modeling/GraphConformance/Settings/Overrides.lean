import GraphConformance.Settings.Basic
import GraphConformance.Text.Decimal

/-!
# Overrides by variables

Variables of the environment override settings. A variable has a say in one field; a value that the
field does not understand is ignored. A flag understands every value, and only some mean yes.
-/

set_option autoImplicit false

namespace GraphConformance.Settings

/-- What a variable says about a field, or else the value that the field has. -/
def chosen {α : Type} (lookup : String → Option String) (key : String)
    (read? : String → Option α) (current : α) : α :=
  ((lookup key).bind read?).getD current

/-- Whether a flag is set by a value. -/
def isYes (value : String) : Bool := value == "true" || value == "1" || value == "yes"

/-- The settings as variables override them. -/
def overriddenBy (s : Settings) (lookup : String → Option String) : Settings :=
  let kind := fun key current => chosen lookup key MappingKind.ofName? current
  let flag := fun key current => chosen lookup key (fun value => some (isYes value)) current
  { s with
    general := { s.general with
      logLevel := chosen lookup "RDG_LOG_LEVEL" LogLevel.ofName? s.general.logLevel
      format := chosen lookup "RDG_FORMAT" OutputFormat.ofName? s.general.format }
    validation := {
      resourceKind := kind "RDG_RESOURCE_KIND" s.validation.resourceKind
      subjectKind := kind "RDG_SUBJECT_KIND" s.validation.subjectKind
      objectKind := kind "RDG_OBJECT_KIND" s.validation.objectKind
      translate := flag "RDG_TRANSLATE" s.validation.translate
      closedWorldDefaults := flag "RDG_DEFAULTS" s.validation.closedWorldDefaults
      strictResource := flag "RDG_STRICT_RESOURCE" s.validation.strictResource }
    reasoning := { s.reasoning with
      maxDepth := chosen lookup "RDG_MAX_DEPTH" (fun value => Text.count? value.toList)
        s.reasoning.maxDepth } }

end GraphConformance.Settings
