import GraphConformance.Vocabulary
import GraphConformance.Text.Decimal
import GraphConformance.Text.Lowercase
import GraphConformance.Text.WhiteSpace

/-!
# Terms and triples

A term is an IRI, a literal or a blank node; a triple relates a subject to an object by a predicate.
A blank node is identified by its number; its label only shows when the node is written.

`Term.chars` is the written form of a term: an IRI in angle brackets, a literal quoted and escaped
with its language or datatype after it, a blank node by label and number. Terms are ordered IRIs
first, then literals, then blank nodes; literals by value, then plain before language before typed.
-/

set_option autoImplicit false

namespace GraphConformance

open Text Vocabulary

/-- A blank node: a number, and the label under which its document names it. -/
structure BlankNode where
  id : Nat
  label : Option String
deriving DecidableEq, Ord, Repr

/-- What a literal's value is. -/
inductive LiteralType where
  | plain
  | language (tag : String)
  | typed (datatype : Iri)
deriving DecidableEq, Ord, Repr

/-- A literal: a text and what it stands for. -/
structure Literal where
  value : String
  type : LiteralType
deriving DecidableEq, Ord, Repr

/-- A node or edge label of a graph. -/
inductive Term where
  | iri (i : Iri)
  | literal (l : Literal)
  | blank (b : BlankNode)
deriving DecidableEq, Ord, Repr

/-- A subject related to an object. -/
structure Triple where
  subject : Term
  predicate : Term
  object : Term
deriving DecidableEq, Repr

namespace Literal

/-- A literal in a language; tags are compared in lower case. -/
def withLanguage (value tag : String) : Literal := ⟨value, .language (lowercase tag)⟩

/-- A plain literal is a string, one with a language a language-tagged string. -/
def effectiveDatatype (l : Literal) : Iri :=
  match l.type with
  | .plain => Xsd.string
  | .language _ => Rdf.langString
  | .typed datatype => datatype

/-- The count that the value denotes, white space around it ignored. -/
def cardinality? (l : Literal) : Option Nat := count? (trim l.value.toList)

/-- A character as it stands between quotes. -/
def escapeChar (c : Char) : List Char :=
  if c = '"' then ['\\', '"']
  else if c = '\\' then ['\\', '\\']
  else if c = '\n' then ['\\', 'n']
  else if c = '\r' then ['\\', 'r']
  else if c = '\t' then ['\\', 't']
  else [c]

/-- A text as it stands between quotes. -/
def escape (text : List Char) : List Char := text.flatMap escapeChar

/-- The written form of a literal. -/
def chars (l : Literal) : List Char :=
  let quoted := '"' :: escape l.value.toList ++ ['"']
  match l.type with
  | .plain => quoted
  | .language tag => quoted ++ '@' :: tag.toList
  | .typed datatype => quoted ++ ['^', '^', '<'] ++ datatype.text.toList ++ ['>']

end Literal

/-- The written form of a blank node: its label, or `b` when it has none, and its number. -/
def BlankNode.chars (b : BlankNode) : List Char :=
  match b.label with
  | some label => ['_', ':'] ++ label.toList ++ '_' :: decimal b.id
  | none => ['_', ':', 'b'] ++ decimal b.id

namespace Term

/-- Terms that can stand for an individual: all but literals. -/
def isIndividual : Term → Bool
  | .literal _ => false
  | _ => true

/-- Blank nodes. -/
def isAnonymous : Term → Bool
  | .blank _ => true
  | _ => false

/-- IRIs. -/
def isIri : Term → Bool
  | .iri _ => true
  | _ => false

theorem isIri_iff {t : Term} : t.isIri = true ↔ ∃ i, t = .iri i := by
  cases t <;> simp [isIri]

/-- Whether a term belongs to the structure of documents. -/
def isReserved : Term → Bool
  | .iri i => Vocabulary.isReserved i
  | _ => false

/-- The written form of a term. -/
def chars : Term → List Char
  | .iri i => '<' :: i.text.toList ++ ['>']
  | .literal l => l.chars
  | .blank b => b.chars

/-- The written form of a term, as a text. -/
def display (t : Term) : String := String.ofList t.chars

/-- The name of a term in explanations: the local name of an IRI that has one. -/
def shortName (t : Term) : String :=
  match t with
  | .iri i => if i.localName = "" then t.display else i.localName
  | _ => t.display

end Term

namespace Triple

/-- The written form of a triple, closed by a dot. -/
def chars (t : Triple) : List Char :=
  t.subject.chars ++ ' ' :: t.predicate.chars ++ ' ' :: t.object.chars ++ [' ', '.']

/-- The written form of a triple, as a text. -/
def display (t : Triple) : String := String.ofList t.chars

end Triple

end GraphConformance
