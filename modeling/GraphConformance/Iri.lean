import GraphConformance.Text.Split

/-!
# IRI references

An `Iri` is a reference kept as it was written. It is cut into a stem and a local name after its
last `#`, or failing that after its last `/`; a reference with neither is both its own stem and its
own local name.

`Iri.resolve` reads a reference against a base. What counts as absolute is decided by the text
alone: a reference that contains `://` or starts with `urn:` stands for itself. Of the others, the
empty one is the base, one that starts with `#` replaces the base's fragment, one that starts with
`/` follows the base's authority if the base has one, and any other replaces the local name.
-/

set_option autoImplicit false

namespace GraphConformance

open Text

/-- An IRI reference, absolute or relative. -/
structure Iri where
  text : String
deriving DecidableEq, Ord, Repr

namespace Iri

/-- The cut between stem and local name. -/
def cut? (i : Iri) : Option (List Char × List Char) :=
  (splitAfterLast '#' i.text.toList).or (splitAfterLast '/' i.text.toList)

/-- The text up to and including the last `#`, else the last `/`, else all of it. -/
def stem (i : Iri) : String :=
  match i.cut? with
  | some (before, _) => String.ofList before
  | none => i.text

/-- The text after the last `#`, else after the last `/`, else all of it. -/
def localName (i : Iri) : String :=
  match i.cut? with
  | some (_, after) => String.ofList after
  | none => i.text

/-- References that are taken as they are. -/
def isAbsolute (reference : List Char) : Bool :=
  (breakBefore "://".toList reference).isSome || "urn:".toList.isPrefixOf reference

/-- The part of a text before its path: everything up to the first `/` after `://`. -/
def site? (text : List Char) : Option (List Char) :=
  (breakBefore "://".toList text).map fun (scheme, rest) =>
    scheme ++ rest.take 3 ++ (rest.drop 3).takeWhile (· != '/')

/-- A reference in place of the base's local name. -/
def beside (base : Iri) (reference : String) : Iri :=
  ⟨base.stem ++ reference⟩

/-- The IRI that a reference stands for next to a base. -/
def resolve (base : Iri) (reference : String) : Iri :=
  if isAbsolute reference.toList then ⟨reference⟩
  else
    match reference.toList with
    | [] => base
    | '#' :: _ =>
      ⟨String.ofList (base.text.toList.takeWhile (· != '#')) ++ reference⟩
    | '/' :: _ =>
      match site? base.text.toList with
      | some site => ⟨String.ofList site ++ reference⟩
      | none => base.beside reference
    | _ => base.beside reference

/-- Whether the text starts with that of a namespace. -/
def isIn (i : Iri) (space : String) : Bool :=
  space.toList.isPrefixOf i.text.toList

/-- What follows a namespace in a text that starts with it. -/
def nameIn? (i : Iri) (space : String) : Option String :=
  if i.isIn space then some (String.ofList (i.text.toList.drop space.length)) else none

end Iri

end GraphConformance
