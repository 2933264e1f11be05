import GraphConformance.CommandLine.Run

/-!
# The program

The command line on the files and variables of the system.
-/

set_option autoImplicit false

namespace GraphConformance.CommandLine

/-- The error that an error of the system stands for. The system gives some numbers with the
opposite sign. -/
def fileError : IO.Error → File.Error
  | .noFileOrDirectory .. => File.notFound
  | .permissionDenied .. => File.accessDenied
  | .inappropriateType _ code _ =>
    if code = 20 ∨ code = 0 - 20 then File.notADirectory else File.isADirectory
  | .invalidArgument _ code details =>
    if code = 36 ∨ code = 0 - 36 then File.nameTooLong else ⟨.other, details⟩
  | .userError _ => File.notText
  | e => ⟨.other, toString e⟩

/-- The files and variables of the system. -/
def system : File.Access IO where
  environment name := IO.getEnv name
  holds path := do
    match ← (IO.FS.Handle.mk path .read).toBaseIO with
    | .ok _ => return true
    | .error e => return (fileError e).kind = .accessDenied
  read path := do
    if let some e := File.refusal? path then return .error e
    match ← (IO.FS.readFile path).toBaseIO with
    | .ok text => return .ok text
    | .error e => return .error (fileError e)
  write path text := do
    if let some e := File.refusal? path then return .error e
    match ← (IO.FS.writeFile path text).toBaseIO with
    | .ok () => return .ok ()
    | .error e => return .error (fileError e)

end GraphConformance.CommandLine

open GraphConformance

/-- Run with the arguments of the command line. -/
def main (arguments : List String) : IO UInt32 := do
  let outcome ← CommandLine.run CommandLine.system arguments
  IO.print outcome.output
  IO.eprint outcome.errors
  return outcome.status.toUInt32
