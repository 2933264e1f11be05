/-!
# Errors of settings

Settings cannot be read from a file that is unreadable or malformed, and cannot be written when a
value has no written form.
-/

set_option autoImplicit false

namespace GraphConformance.Settings

inductive Error where
  | unreadable (path reason : String)
  | malformed (path reason : String)
  | unwritable (reason : String)
deriving DecidableEq, Repr

def Error.message : Error → String
  | unreadable path reason => "IO error reading " ++ path ++ ": " ++ reason
  | malformed path reason => "Parse error in " ++ path ++ ": " ++ reason
  | unwritable reason => "Serialization error: " ++ reason

end GraphConformance.Settings
