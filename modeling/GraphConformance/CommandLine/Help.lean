/-!
# Help

The texts that the program prints about itself.
-/

set_option autoImplicit false

namespace GraphConformance.CommandLine

/-- The answer to a request for the version. -/
def versionText : String := "rdg 0.1.0\n"

/-- The lines of the help, from the purpose of the program to its last switch. -/
def helpLines : List String :=
  ["Validate RDF protocol documents against templates",
    "",
    "Usage: rdg [OPTIONS]",
    "",
    "Options:",
    "  -t, --template <FILE>       Template document (Turtle)",
    "  -i, --instance <FILE>       Instance document (Turtle)",
    "      --ontology <FILE>       Ontology files loaded into the reasoner",
    "      --resource-kind <KIND>  Mapping kind for the resource check",
    "      --subject-kind <KIND>   Mapping kind for subjects",
    "      --object-kind <KIND>    Mapping kind for objects",
    "      --no-translate          Validate only, without translating into the template vocabulary",
    "      --no-defaults           Do not back-fill template default values",
    "      --strict-resource       Require identical resource identifiers",
    "      --translated-only       Output only the statements produced by translation",
    "  -f, --format <FORMAT>       Output format",
    "      --base <BASE>           Base URI for relative references",
    "  -o, --output <OUTPUT>       Output file (defaults to stdout)",
    "      --config <FILE>         Configuration file (overrides the search path)",
    "      --print-config          Print the effective configuration and exit",
    "  -v, --verbose               Verbose output",
    "  -q, --quiet                 Quiet mode (no logs)",
    "  -h, --help                  Print help",
    "  -V, --version               Print version"]

/-- The answer to a request for help. -/
def helpText : String := String.join (helpLines.map (· ++ "\n"))

end GraphConformance.CommandLine
