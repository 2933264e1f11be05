import GraphConformance.File.Path
import GraphConformance.Table

/-!
# Trees of files

A `Tree` is a set of files in memory, with the directories that hold them and a working directory.
Paths are walked part by part: `.` stays, `..` goes up, and only a directory can be walked through.
-/

set_option autoImplicit false

namespace GraphConformance.File

/-- Files by the parts of their paths. -/
structure Tree where
  /-- Where relative paths start. -/
  working : List String
  files : Table (List String) String

/-- What is at a place. -/
inductive Node where
  | file (text : String)
  | directory
  | nothing

namespace Tree

/-- The tree with a file added under a path from the working directory. -/
def addFile (t : Tree) (path text : String) : Tree :=
  { t with files := t.files.insert (t.working ++ parts path) text }

/-- What is at a place. A directory is there as soon as something is in it. -/
def node (t : Tree) (place : List String) : Node :=
  match t.files.get? place with
  | some text => .file text
  | none =>
    if place.isPrefixOf t.working || t.files.keys.any place.isPrefixOf then .directory else .nothing

/-- The place that a part of a path leads to. -/
def step (t : Tree) (place : List String) (part : String) : Except Error (List String) :=
  match t.node place with
  | .file _ => .error notADirectory
  | .nothing => .error notFound
  | .directory =>
    if part = "" ∨ part = "." then .ok place
    else if part = ".." then .ok place.dropLast
    else if maxNameSize < part.utf8ByteSize then .error nameTooLong
    else .ok (place ++ [part])

/-- The place of a path, given by its parts. -/
def walk (t : Tree) : List String → Except Error (List String)
  | "" :: rest => rest.foldlM t.step []
  | path => path.foldlM t.step t.working

/-- What is at a path. -/
def find (t : Tree) (path : String) : Except Error Node := do
  if let some e := refusal? path then throw e
  return t.node (← t.walk (parts path))

/-- Whether there is a file or directory at a path. -/
def holds (t : Tree) (path : String) : Bool :=
  match t.find path with
  | .ok (.file _) | .ok .directory => true
  | .ok .nothing | .error _ => false

/-- The text of a file. -/
def read (t : Tree) (path : String) : Except Error String := do
  match ← t.find path with
  | .file text => return text
  | .directory => throw isADirectory
  | .nothing => throw notFound

/-- The tree with a text given to a file, which is made if there is none. A path that ends in a
slash is that of a directory. -/
def write (t : Tree) (path text : String) : Except Error Tree := do
  if let some e := refusal? path then throw e
  let names := ((parts path).reverse.dropWhile (·.isEmpty)).reverse
  match t.node (← t.walk names.dropLast) with
  | .file _ => throw notADirectory
  | .nothing => throw notFound
  | .directory =>
    if path.endsWith "/" then throw isADirectory
    let target ← t.walk names
    match t.node target with
    | .directory => throw isADirectory
    | .file _ | .nothing => return { t with files := t.files.insert target text }

end Tree

end GraphConformance.File
