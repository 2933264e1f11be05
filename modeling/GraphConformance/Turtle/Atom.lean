import GraphConformance.Turtle.Error
import GraphConformance.Turtle.Lexical

/-!
# Terms without parts

An `Atom` is a term as the document writes it, before prefixes, base and labels are looked up: a
reference, the label of a blank node, a finished literal, or a text with a datatype that is itself a
reference. `readAtom` reads one; it depends on the text alone.
-/

set_option autoImplicit false

namespace GraphConformance.Turtle

open Text

/-- An IRI as written: between angle brackets, or by a prefix and the rest of the name. -/
inductive Reference where
  | bracketed (text : List Char)
  | named (label suffix : List Char)
deriving DecidableEq, Repr

/-- A term as written that has no parts of its own. -/
inductive Atom where
  | reference (r : Reference)
  | label (name : List Char)
  | literal (l : Literal)
  | typed (value : List Char) (datatype : Reference)
deriving DecidableEq, Repr

/-- A reference in either form. -/
def readReference? (s : List Char) : Option (Reference × Shorter s) :=
  match reference? s with
  | some (text, r) => some (.bracketed text, r)
  | none => (prefixedName? s).map fun ((label, suffix), r) => (.named label suffix, r)

/-- The literal whose text has been read, with the language tag or datatype that follows it. -/
def readLiteralType (value : List Char) {s : List Char} (r : Shorter s) :
    Except Halt (Atom × Shorter s) :=
  match mark? '@' r.1 with
  | some q =>
    match run? (fun c => isAlphanumeric c || c == '-') q.1 with
    | some (tag, q') =>
      .ok (.literal (.withLanguage (String.ofList value) (String.ofList tag)),
        (r.trans q).trans q')
    | none => .error (.before q.1 .languageTag)
  | none =>
    match word? ['^', '^'] r.1 with
    | some q =>
      match readReference? q.1 with
      | some (datatype, q') => .ok (.typed value datatype, (r.trans q).trans q')
      | none => .error (.before q.1 .datatypeIri)
    | none => .ok (.literal ⟨String.ofList value, .plain⟩, r)

/-- Whether a text starts with a quote character. -/
def startsQuoted : List Char → Bool
  | c :: _ => c == '"' || c == '\x27'
  | [] => false

/-- Read an atom: a bracketed reference, a label, a quoted string, a number, a truth value or a
prefixed name, tried in this order. -/
def readAtom (s : List Char) : Except Halt (Atom × Shorter s) :=
  match reference? s with
  | some (text, r) => .ok (.reference (.bracketed text), r)
  | none =>
    match label? s with
    | some (name, r) => .ok (.label name, r)
    | none =>
      if startsQuoted s then
        match string? s with
        | some (value, r) => readLiteralType value r
        | none => .error (.before s .unclosedString)
      else
        match (number? s).or (truthValue? s) with
        | some (l, r) => .ok (.literal l, r)
        | none =>
          match prefixedName? s with
          | some ((label, suffix), r) => .ok (.reference (.named label suffix), r)
          | none => .error (.before s (.noTerm (s.take 20)))

end GraphConformance.Turtle
