import GraphConformance.Settings.Basic
import GraphConformance.Toml.Read

/-!
# Reading settings

Settings are read from a configuration text with one table for each group of fields. A missing field
has its usual value and an unknown one is ignored. A group may also be a list of the values of its
fields in order, and a name may also be a table of one key with nothing in it.
-/

set_option autoImplicit false

namespace GraphConformance.Settings

open Toml (Entries Value)

/-! ## Fields -/

/-- The key under which a moment shows when it is read as a group of fields. -/
def momentKey : String := "$__toml_private_datetime"

/-- The entries of a value that is read as a group of fields with the given names. -/
def group? (names : List String) : Value → Option Entries
  | .table _ entries => some entries
  | .array items => some (names.zip items)
  | .tables elements => some (names.zip (elements.map (.table .header)))
  | .moment m => some [(momentKey, .string m.text)]
  | .string _ | .integer _ | .float _ | .boolean _ => none

/-- The value of a field, or its usual value when there is none. -/
def field? {α : Type} (read? : Value → Option α) (usual : α) (entries : Entries) (key : String) :
    Option α :=
  match Table.lookupEntry key entries with
  | some value => read? value
  | none => some usual

def text? : Value → Option String
  | .string text => some text
  | _ => none

def flag? : Value → Option Bool
  | .boolean b => some b
  | _ => none

def count? : Value → Option Nat
  | .integer (.ofNat n) => some n
  | _ => none

def texts? : Value → Option (List String)
  | .array items => items.mapM text?
  | _ => none

/-- Whether a value holds nothing. -/
def isNothing : Value → Bool
  | .array items => items.isEmpty
  | .table _ entries => entries.isEmpty
  | .tables elements => elements.isEmpty
  | _ => false

/-- A value among given ones, chosen by its name. -/
def choice? {α : Type} (all : List α) (name : α → String) : Value → Option α
  | .string text => all.find? (name · = text)
  | .table _ [(key, value)] => if isNothing value then all.find? (name · = key) else none
  | _ => none

/-! ## Groups -/

def general? (value : Value) : Option General := do
  let usual := default.general
  let entries ← group? ["base_uri", "format", "log_level", "color"] value
  return {
    baseUri := ← field? (fun v => (text? v).map some) usual.baseUri entries "base_uri"
    format := ← field? (choice? OutputFormat.all (·.name)) usual.format entries "format"
    logLevel := ← field? (choice? LogLevel.all (·.name)) usual.logLevel entries "log_level"
    color := ← field? flag? usual.color entries "color" }

def validation? (value : Value) : Option Conformance.Options := do
  let usual := default.validation
  let entries ← group? ["resource_kind", "subject_kind", "object_kind", "translate",
    "closed_world_defaults", "strict_resource"] value
  let kind? := choice? MappingKind.all (·.name)
  return {
    resourceKind := ← field? kind? usual.resourceKind entries "resource_kind"
    subjectKind := ← field? kind? usual.subjectKind entries "subject_kind"
    objectKind := ← field? kind? usual.objectKind entries "object_kind"
    translate := ← field? flag? usual.translate entries "translate"
    closedWorldDefaults := ←
      field? flag? usual.closedWorldDefaults entries "closed_world_defaults"
    strictResource := ← field? flag? usual.strictResource entries "strict_resource" }

def reasoning? (value : Value) : Option Reasoning := do
  let usual := default.reasoning
  let entries ← group? ["max_depth", "ontologies"] value
  return {
    maxDepth := ← field? count? usual.maxDepth entries "max_depth"
    ontologies := ← field? texts? usual.ontologies entries "ontologies" }

/-- A table from prefixes to namespaces. -/
def prefixes? (value : Value) : Option (Table String String) :=
  match value with
  | .table _ entries =>
    entries.foldlM (fun found (key, v) => (text? v).map (found.insert key)) ∅
  | .moment m => some ((∅ : Table String String).insert momentKey m.text)
  | _ => none

/-- The settings of a configuration text. -/
def read? (text : String) : Option Settings := do
  let entries ← Toml.read? text
  return {
    general := ← field? general? default.general entries "general"
    validation := ← field? validation? default.validation entries "validation"
    reasoning := ← field? reasoning? default.reasoning entries "reasoner"
    prefixes := ← field? prefixes? default.prefixes entries "prefixes" }

end GraphConformance.Settings
