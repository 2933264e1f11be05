import GraphConformance.Settings.Basic
import GraphConformance.Settings.Error
import GraphConformance.Toml.Write

/-!
# Writing settings

The written form of settings has a section for each group with all its fields, a base that is not
set left out.
-/

set_option autoImplicit false

namespace GraphConformance.Settings

open Toml (Entries)

def General.entries (g : General) : Entries :=
  (g.baseUri.map fun base => ("base_uri", .string base)).toList ++
    [("format", .string g.format.name), ("log_level", .string g.logLevel.name),
      ("color", .boolean g.color)]

def optionEntries (o : Conformance.Options) : Entries :=
  [("resource_kind", .string o.resourceKind.name), ("subject_kind", .string o.subjectKind.name),
    ("object_kind", .string o.objectKind.name), ("translate", .boolean o.translate),
    ("closed_world_defaults", .boolean o.closedWorldDefaults),
    ("strict_resource", .boolean o.strictResource)]

def Reasoning.entries (r : Reasoning) : Entries :=
  [("max_depth", .integer r.maxDepth), ("ontologies", .array (r.ontologies.map .string))]

/-- The sections of settings. -/
def sections (s : Settings) : List (String × Entries) :=
  [("general", s.general.entries), ("validation", optionEntries s.validation),
    ("reasoner", s.reasoning.entries),
    ("prefixes", s.prefixes.entries.map fun (key, value) => (key, .string value))]

/-- The written form of settings. A depth that is no integer of 64 bits has none. -/
def written (s : Settings) : Except Error String :=
  if s.reasoning.maxDepth < Toml.integerLimit then .ok (Toml.sectionsText s.sections)
  else .error (.unwritable "out-of-range value for u64 type")

end GraphConformance.Settings
