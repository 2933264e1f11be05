import GraphConformance.File.Error

/-!
# Paths

The parts of a path are separated by slashes. Some paths are refused before anything is looked up
(`refusal?`), and no file has a name of more than `maxNameSize` octets.
-/

set_option autoImplicit false

namespace GraphConformance.File

/-- How many octets a path may have. -/
def maxPathSize : Nat := 4095

/-- How many octets a part of a path may have. -/
def maxNameSize : Nat := 255

/-- The parts of a path. -/
def parts (path : String) : List String := path.splitOn "/"

/-- The path of a name in a directory. -/
def join (directory name : String) : String :=
  if directory.endsWith "/" then directory ++ name else directory ++ "/" ++ name

/-- Why a path is refused, whatever files there are. -/
def refusal? (path : String) : Option Error :=
  if '\x00' ∈ path.toList then some nulInPath
  else if path.isEmpty then some notFound
  else if maxPathSize < path.utf8ByteSize then some nameTooLong
  else none

end GraphConformance.File
