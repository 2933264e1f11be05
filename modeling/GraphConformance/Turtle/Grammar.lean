import GraphConformance.Turtle.State

/-!
# Statements and documents

A document is a sequence of directives and statements. A statement has a subject and a list of
predicates, each with a list of objects; a term is an atom, a bracketed list of predicates and
objects about a new blank node, or a parenthesised list of terms.

Triples are recorded as soon as their object has been read, so what precedes an error stays: every
reader answers the state it leaves along with its result (`Reading`). All recursion is on a shorter
rest of the text, or on the same text with a smaller production.
-/

set_option autoImplicit false

namespace GraphConformance.Turtle

open Text Vocabulary

/-- What comes of reading the start of a text: the state it leaves, and either a value with the rest
of the text or the halt. -/
structure Reading (s : List Char) (α : Type) where
  state : State
  result : Except Halt (α × Shorter s)

/-- The rest of a text after a required first character. -/
def expect (m : Char) (cause : Cause) {s : List Char} (r : Shorter s) :
    Except Halt (Unit × Shorter s) :=
  match mark? m r.1 with
  | some q => .ok ((), r.trans q)
  | none => .error (.before r.1 cause)

/-- Whether a list of predicates has ended. -/
def endsPredicates : List Char → Bool
  | [] => true
  | c :: _ => c == '.' || c == ']'

mutual

/-- A term: a property list, a collection or an atom. -/
def readTerm (st : State) (s : List Char) : Reading s Term :=
  match mark? '[' s with
  | some r =>
    -- the node is made before its contents are read
    let (st, node) := st.freshBlank
    match mark? ']' (skip r.1) with
    | some q => ⟨st, .ok (node, r.skip.trans q)⟩
    | none =>
      have := r.skip.2
      match readPredicates st node (skip r.1) with
      | ⟨st, .error halt⟩ => ⟨st, .error halt⟩
      | ⟨st, .ok (_, q)⟩ =>
        ⟨st, (expect ']' .closingBracket (r.skip.trans q).skip).map fun (_, q) => (node, q)⟩
  | none =>
    match mark? '(' s with
    | some r =>
      have := r.skip.2
      match readItems st (skip r.1) with
      | ⟨st, .error halt⟩ => ⟨st, .error halt⟩
      | ⟨st, .ok (items, q)⟩ =>
        -- the cells are made after all items, which may hold nodes of their own
        let (st, head) := st.addList items
        ⟨st, .ok (head, r.skip.trans q)⟩
    | none =>
      match readAtom s with
      | .error halt => ⟨st, .error halt⟩
      | .ok (atom, r) =>
        match st.place atom with
        | (st, .error halt) => ⟨st, .error halt⟩
        | (st, .ok term) => ⟨st, .ok (term, r)⟩
termination_by (s.length, 0)

/-- The items of a collection, up to its closing parenthesis. -/
def readItems (st : State) (s : List Char) : Reading s (List Term) :=
  match mark? ')' s with
  | some r => ⟨st, .ok ([], r)⟩
  | none =>
    match readTerm st s with
    | ⟨st, .error halt⟩ => ⟨st, .error halt⟩
    | ⟨st, .ok (item, r)⟩ =>
      have := r.skip.2
      match readItems st (skip r.1) with
      | ⟨st, .error halt⟩ => ⟨st, .error halt⟩
      | ⟨st, .ok (items, q)⟩ => ⟨st, .ok (item :: items, r.skip.trans q)⟩
termination_by (s.length, 1)

/-- A predicate: the shorthand for `rdf:type`, or a term that is an IRI. -/
def readPredicate (st : State) (s : List Char) : Reading s Term :=
  match typeShorthand? s with
  | some r => ⟨st, .ok (.iri Rdf.type, r)⟩
  | none =>
    match readTerm st s with
    | ⟨st, .error halt⟩ => ⟨st, .error halt⟩
    | ⟨st, .ok (term, r)⟩ =>
      -- the error points to the start of the term
      if term.isIri then ⟨st, .ok (term, r)⟩ else ⟨st, .error (.before s .predicateNotIri)⟩
termination_by (s.length, 1)

/-- The objects of a subject under a predicate, separated by commas. -/
def readObjects (st : State) (subject predicate : Term) (s : List Char) : Reading s Unit :=
  match readTerm st s with
  | ⟨st, .error halt⟩ => ⟨st, .error halt⟩
  | ⟨st, .ok (object, r)⟩ =>
    -- recorded at once, so that a later error leaves it in the store
    let st := st.addTriple subject predicate object
    match mark? ',' (skip r.1) with
    | none => ⟨st, .ok ((), r.skip)⟩
    | some q =>
      let q := (r.skip.trans q).skip
      have := q.2
      match readObjects st subject predicate q.1 with
      | ⟨st, .error halt⟩ => ⟨st, .error halt⟩
      | ⟨st, .ok (_, p)⟩ => ⟨st, .ok ((), q.trans p)⟩
termination_by (s.length, 1)

/-- The predicates of a subject with their objects, separated by semicolons, of which there may be
several and some at the end. -/
def readPredicates (st : State) (subject : Term) (s : List Char) : Reading s Unit :=
  match readPredicate st s with
  | ⟨st, .error halt⟩ => ⟨st, .error halt⟩
  | ⟨st, .ok (predicate, r)⟩ =>
    have := r.skip.2
    match readObjects st subject predicate (skip r.1) with
    | ⟨st, .error halt⟩ => ⟨st, .error halt⟩
    | ⟨st, .ok (_, q)⟩ =>
      let q := (r.skip.trans q).skip
      match mark? ';' q.1 with
      | none => ⟨st, .ok ((), q)⟩
      | some p =>
        let p := (q.trans p).skipSemicolons
        have := p.2
        if endsPredicates p.1 then ⟨st, .ok ((), p)⟩
        else
          match readPredicates st subject p.1 with
          | ⟨st, .error halt⟩ => ⟨st, .error halt⟩
          | ⟨st, .ok (_, z)⟩ => ⟨st, .ok ((), p.trans z)⟩
termination_by (s.length, 2)

end

/-! ## Directives -/

/-- The declaration of a prefix, after its keyword. -/
def readPrefixDeclaration (st : State) {s : List Char} (r : Shorter s) : Reading s Unit :=
  let r := r.skip
  let label := r.1.takeWhile isNameChar
  let q : Shorter s :=
    ⟨r.1.dropWhile isNameChar, Nat.lt_of_le_of_lt (length_dropWhile_le _ r.1) r.2⟩
  match expect ':' .colonAfterName q with
  | .error halt => ⟨st, .error halt⟩
  | .ok (_, q) =>
    let q := q.skip
    match reference? q.1 with
    | none => ⟨st, .error (.before q.1 .namespaceIri)⟩
    | some (text, p) =>
      let space := (st.resolveText (String.ofList text)).text
      ⟨st.declare (String.ofList label) space, .ok ((), q.trans p)⟩

/-- The declaration of a base, after its keyword. -/
def readBaseDeclaration (st : State) {s : List Char} (r : Shorter s) : Reading s Unit :=
  let r := r.skip
  match reference? r.1 with
  | none => ⟨st, .error (.before r.1 .baseIri)⟩
  | some (text, q) =>
    ⟨{ st with base := some (st.resolveText (String.ofList text)) }, .ok ((), r.trans q)⟩

/-- A directive that starts with `@` and ends with a dot. -/
def readDirective (st : State) (s : List Char) : Reading s Unit :=
  let declaration : Reading s Unit :=
    match word? "@prefix".toList s with
    | some r => readPrefixDeclaration st r
    | none =>
      match word? "@base".toList s with
      | some r => readBaseDeclaration st r
      | none => ⟨st, .error (.before s .unknownDirective)⟩
  match declaration with
  | ⟨st, .error halt⟩ => ⟨st, .error halt⟩
  | ⟨st, .ok (_, r)⟩ => ⟨st, expect '.' .dotAfterDirective r.skip⟩

/-- A directive that starts with a bare keyword and has no dot; the keyword is in capitals. -/
def readBareDirective (st : State) (s : List Char) : Reading s Unit :=
  match word? "PREFIX".toList s with
  | some r => readPrefixDeclaration st r
  | none =>
    match word? "BASE".toList s with
    | some r => readBaseDeclaration st r
    | none => ⟨st, .error (.before s .unknownDirective)⟩

/-! ## Statements and the whole document -/

/-- A statement. A property list may stand as a statement of its own. -/
def readStatement (st : State) (s : List Char) : Reading s Unit :=
  match readTerm st s with
  | ⟨st, .error halt⟩ => ⟨st, .error halt⟩
  | ⟨st, .ok (subject, r)⟩ =>
    if subject.isIndividual then
      -- the predicates of a property list are inside it, so that none need follow
      if s.head? = some '[' ∧ (skip r.1).head? = some '.' then
        ⟨st, expect '.' .dotAfterStatement r.skip⟩
      else
        match readPredicates st subject (skip r.1) with
        | ⟨st, .error halt⟩ => ⟨st, .error halt⟩
        | ⟨st, .ok (_, q)⟩ => ⟨st, expect '.' .dotAfterStatement (r.skip.trans q).skip⟩
    else ⟨st, .error (.before s .literalSubject)⟩

/-- A directive or a statement. -/
def readEntry (st : State) (s : List Char) : Reading s Unit :=
  if s.head? = some '@' then readDirective st s
  else if startsWithKeyword "PREFIX".toList s || startsWithKeyword "BASE".toList s then
    readBareDirective st s
  else readStatement st s

/-- Directives and statements up to the end of the text. -/
def readEntries (st : State) (s : List Char) : State × Except Halt Unit :=
  match skip s, length_skip_le s with
  | [], _ => (st, .ok ())
  | c :: text, h =>
    match readEntry st (c :: text) with
    | ⟨st, .error halt⟩ => (st, .error halt)
    | ⟨st, .ok (_, r)⟩ =>
      have := Nat.lt_of_lt_of_le r.2 h
      readEntries st r.1
termination_by s.length

/-- Read a document. What was read before an error stays in the state. -/
def State.readDocument (st : State) (text : String) : State × Except ParseError Unit :=
  match readEntries st text.toList with
  | (st, .ok _) => (st, .ok ())
  | (st, .error halt) => (st, .error (halt.inText text.toList))

end GraphConformance.Turtle
