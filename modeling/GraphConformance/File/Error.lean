/-!
# Errors of files

Reading or writing a file fails because it is not there, because access is denied, or for another
reason; the message tells which.
-/

set_option autoImplicit false

namespace GraphConformance.File

inductive ErrorKind where
  | notFound
  | accessDenied
  | other
deriving DecidableEq, Repr

/-- Why a file cannot be read or written. -/
structure Error where
  kind : ErrorKind
  message : String
deriving DecidableEq, Repr

/-- There is nothing at a path. -/
def notFound : Error := ⟨.notFound, "No such file or directory (os error 2)"⟩

/-- The user has no access. -/
def accessDenied : Error := ⟨.accessDenied, "Permission denied (os error 13)"⟩

/-- A file is used like a directory. -/
def notADirectory : Error := ⟨.other, "Not a directory (os error 20)"⟩

/-- A directory is used like a file. -/
def isADirectory : Error := ⟨.other, "Is a directory (os error 21)"⟩

/-- A path, or a part of it, has too many octets. -/
def nameTooLong : Error := ⟨.other, "File name too long (os error 36)"⟩

/-- A path holds the character that ends paths. -/
def nulInPath : Error := ⟨.other, "file name contained an unexpected NUL byte"⟩

/-- What a file holds is no text. -/
def notText : Error := ⟨.other, "stream did not contain valid UTF-8"⟩

end GraphConformance.File
