import GraphConformance.File.Access
import GraphConformance.File.Path
import GraphConformance.Settings.Error
import GraphConformance.Settings.Overrides
import GraphConformance.Settings.Read

/-!
# Finding settings

Settings come from a named file, or else from the first file that is there among a few usual ones,
or else they are the default; variables override them in any case.
-/

set_option autoImplicit false

namespace GraphConformance.Settings

open File (Access)

variable {m : Type → Type} [Monad m]

/-- Settings from a file. -/
def load (access : Access m) (path : String) : m (Except Error Settings) := do
  match ← access.read path with
  | .error e => return .error (.unreadable path e.message)
  | .ok text =>
    match read? text with
    | some s => return .ok s
    | none => return .error (.malformed path "TOML parse error")

/-- Where settings are looked for, in order: the working directory, the directory for settings of
the user, the home directory and the system's settings. -/
def usualPaths (environment : String → Option String) : List String :=
  let home := (environment "HOME").filter (!·.isEmpty)
  let user := ((environment "XDG_CONFIG_HOME").filter (·.startsWith "/")).or
    (home.map (File.join · ".config"))
  ["./rdg.toml"] ++ (user.map (File.join · "rdg/config.toml")).toList ++
    (home.map (File.join · ".rdg/config.toml")).toList ++ ["/etc/rdg/config.toml"]

/-- The first path at which there is something. -/
def firstThere (access : Access m) : List String → m (Option String)
  | [] => return none
  | path :: rest => do if ← access.holds path then return some path else firstThere access rest

/-- The variables that have a say in settings. -/
def variableNames : List String :=
  ["HOME", "XDG_CONFIG_HOME", "RDG_LOG_LEVEL", "RDG_FORMAT", "RDG_RESOURCE_KIND",
    "RDG_SUBJECT_KIND", "RDG_OBJECT_KIND", "RDG_TRANSLATE", "RDG_DEFAULTS", "RDG_STRICT_RESOURCE",
    "RDG_MAX_DEPTH"]

/-- The values of these variables. -/
def environmentOf (access : Access m) : m (String → Option String) := do
  let values ← variableNames.mapM fun key => return (key, ← access.environment key)
  return fun key => (values.lookup key).join

/-- The settings in force, before the command line has its say. -/
def find (access : Access m) (named : Option String) : m (Except Error Settings) := do
  let environment ← environmentOf access
  let path ← match named with
    | some path => pure (some path)
    | none => firstThere access (usualPaths environment)
  let found ← match path with
    | some path => load access path
    | none => pure (.ok default)
  return found.map (·.overriddenBy environment)

end GraphConformance.Settings
