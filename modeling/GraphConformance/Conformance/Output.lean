import GraphConformance.Conformance.Pass
import GraphConformance.Json.Print
import GraphConformance.Settings.Basic

/-!
# Output of accepted documents

An accepted document is written as its triples, one a line, or as a structured value with the graph,
the mappings and the triples. Either may be restricted to the statements that were translated.
-/

set_option autoImplicit false

namespace GraphConformance.Conformance

/-- A mapping as a list of its entries. -/
def mappingJson (m : Mapping) : Json :=
  .array (m.entries.map fun (individual, p) => Json.ofFields
    [("instance", .string individual.display),
      ("template", Json.ofOption (p.template?.map Term.display)), ("required", .bool p.isRequired)])

namespace Accepted

/-- The statements to write: those of the document, or the translated ones alone. -/
def statements (a : Accepted) (translatedOnly : Bool) : List Triple :=
  if translatedOnly then a.translated else a.document.triples

/-- The structured form of an accepted document. -/
def toJson (a : Accepted) (translatedOnly : Bool) : Json :=
  Json.ofFields
    [("graph", .string a.graph.display), ("subjects", mappingJson a.subjects),
      ("objects", Json.ofFields (a.objects.entries.map fun (subject, m) =>
        (subject.display, mappingJson m))),
      ("statements", Json.strings ((a.statements translatedOnly).map Triple.display))]

/-- The lines of an accepted document. -/
def lines (a : Accepted) (translatedOnly : Bool) : String :=
  String.join ((a.statements translatedOnly).map fun t => t.display ++ "\n")

/-- The text of an accepted document in a format. -/
def written (a : Accepted) (format : OutputFormat) (translatedOnly : Bool) : String :=
  match format with
  | .nTriples => a.lines translatedOnly
  | .json => (a.toJson translatedOnly).pretty

end Accepted

end GraphConformance.Conformance
