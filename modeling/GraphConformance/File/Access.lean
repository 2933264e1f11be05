import GraphConformance.File.Error

/-!
# Access to files

What a program may do outside itself, in a monad of its choice: look at variables, and read and
write files by their paths.
-/

set_option autoImplicit false

namespace GraphConformance.File

/-- Operations on files and variables. -/
structure Access (m : Type → Type) where
  /-- The value of a variable of the environment. -/
  environment : String → m (Option String)
  /-- Whether there is a file or directory at a path. -/
  holds : String → m Bool
  /-- The text of a file. -/
  read : String → m (Except Error String)
  /-- Give a file a text. -/
  write : String → String → m (Except Error Unit)

end GraphConformance.File
