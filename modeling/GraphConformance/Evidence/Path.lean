import GraphConformance.Failure

/-!
# Paths of classes

While the definition of a class is being translated, the class stands on a path, the innermost class
last. The path shows in explanations and in the class of a failure.
-/

set_option autoImplicit false

namespace GraphConformance

/-- The classes whose definitions are being translated, innermost last. -/
structure ClassPath where
  classes : List Term
deriving DecidableEq, Repr

namespace ClassPath

def empty : ClassPath := ⟨[]⟩

def push (path : ClassPath) (c : Term) : ClassPath := ⟨path.classes ++ [c]⟩

/-- The innermost class, and the path without it. -/
def pop (path : ClassPath) : Option Term × ClassPath :=
  (path.classes.getLast?, ⟨path.classes.dropLast⟩)

/-- The innermost class. -/
def top? (path : ClassPath) : Option Term := path.classes.getLast?

def depth (path : ClassPath) : Nat := path.classes.length

/-- The short names of the classes, outermost first. -/
def display (path : ClassPath) : String := " > ".intercalate (path.classes.map Term.shortName)

/-- An explanation, and where it applies. -/
def explain (path : ClassPath) (explanation : String) : String :=
  match path.classes with
  | [] => explanation
  | _ => explanation ++ " (in " ++ path.display ++ ")"

/-- The failure of an individual inside the classes of a path. -/
def failure (path : ClassPath) (kind : FailureKind Failure) (individual : Term)
    (explanation : String) : Failure :=
  ⟨.restriction, kind, some individual, path.top?, path.explain explanation⟩

/-- The failure of a question that the knowledge base refuses. -/
def queryFailure (path : ClassPath) (e : Knowledge.QueryError) (individual : Term) : Failure :=
  path.failure (Failure.ofQueryError .restriction e).kind individual e.message

end ClassPath

end GraphConformance
