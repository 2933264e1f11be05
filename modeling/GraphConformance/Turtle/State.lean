import GraphConformance.Store.Basic
import GraphConformance.Turtle.Atom

/-!
# What a reader knows

While documents are read, a `State` holds the declared prefixes, the base, the blank node of every
label met so far, the number of the next blank node and the triples read. `State.place` gives the
term that an atom stands for; only a label that is met for the first time changes the state.
-/

set_option autoImplicit false

namespace GraphConformance.Turtle

open Text Vocabulary

/-- The knowledge that reading needs and gathers. -/
structure State where
  prefixes : Table String String
  base : Option Iri
  labels : Table String BlankNode
  nextBlank : Nat
  store : Store

namespace State

/-- The table of the prefixes that need no declaration. -/
def builtinPrefixes : Table String String :=
  builtinNames.foldl (fun table (label, space) => table.insert label space) ∅

/-- A reader that has read nothing; its blank nodes are numbered from `nextBlank`. -/
def initial (nextBlank : Nat) (base : Option Iri) : State :=
  ⟨builtinPrefixes, base, ∅, nextBlank, ∅⟩

/-- Declare a prefix. -/
def declare (st : State) (label space : String) : State :=
  { st with prefixes := st.prefixes.insert label space }

/-- Declare several prefixes in order. -/
def declareAll (st : State) (names : List (String × String)) : State :=
  names.foldl (fun st (label, space) => st.declare label space) st

/-- The IRI of a bracketed reference. -/
def resolveText (st : State) (text : String) : Iri :=
  match st.base with
  | some base => base.resolve text
  | none => ⟨text⟩

/-- The IRI of a prefixed name. -/
def resolveName (st : State) (label suffix : String) : Except Halt Iri :=
  match st.prefixes.get? label with
  | some space => .ok ⟨space ++ suffix⟩
  | none => .error (.undefinedPrefix label)

/-- The IRI of a reference. -/
def resolve (st : State) : Reference → Except Halt Iri
  | .bracketed text => .ok (st.resolveText (String.ofList text))
  | .named label suffix => st.resolveName (String.ofList label) (String.ofList suffix)

/-- A new blank node without label. -/
def freshBlank (st : State) : State × Term :=
  ({ st with nextBlank := st.nextBlank + 1 }, .blank ⟨st.nextBlank, none⟩)

/-- The blank node of a label, made when the label is new. -/
def labelledBlank (st : State) (label : String) : State × Term :=
  match st.labels.get? label with
  | some b => (st, .blank b)
  | none =>
    let b : BlankNode := ⟨st.nextBlank, some label⟩
    ({ st with nextBlank := st.nextBlank + 1, labels := st.labels.insert label b }, .blank b)

/-- Record a triple. -/
def addTriple (st : State) (subject predicate object : Term) : State :=
  { st with store := st.store.insert ⟨subject, predicate, object⟩ }

/-- The term that an atom stands for. -/
def place (st : State) : Atom → State × Except Halt Term
  | .reference r => (st, (st.resolve r).map .iri)
  | .label name =>
    let (st, node) := st.labelledBlank (String.ofList name)
    (st, .ok node)
  | .literal l => (st, .ok (.literal l))
  | .typed value datatype =>
    (st, (st.resolve datatype).map fun d => .literal ⟨String.ofList value, .typed d⟩)

/-- Make a list of the items: one new cell an item, the last cell first. Answers its head. -/
def addList (st : State) : List Term → State × Term
  | [] => (st, .iri Rdf.nil)
  | item :: items =>
    let (st, next) := st.addList items
    let (st, cell) := st.freshBlank
    ((st.addTriple cell (.iri Rdf.first) item).addTriple cell (.iri Rdf.rest) next, cell)

end State

end GraphConformance.Turtle
