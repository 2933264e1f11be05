import GraphConformance.Toml.Lexical
import GraphConformance.Toml.Number
import GraphConformance.Toml.Value

/-!
# Reading configuration texts

A configuration text is read in two steps: its lines into statements, and the statements, in order,
into one tree of tables. `Toml.read?` answers the entries of the outermost table.
-/

set_option autoImplicit false

namespace GraphConformance.Toml

open Text

/-! ## Values -/

/-- How many lists and tables may be open at once within a value. -/
def maxDepth : Nat := 79

/-- A value that holds no other. Dates come before numbers, because they start like one. -/
def scalar? (s : List Char) : Option (Value × Shorter s) :=
  match text? s, word? "true".toList s, word? "false".toList s with
  | some (text, r), _, _ => some (.string text, r)
  | none, some r, _ => some (.boolean true, r)
  | none, none, some r => some (.boolean false, r)
  | none, none, none =>
    match moment? s, float? s with
    | some (m, r), _ => some (.moment m, r)
    | none, some (text, r) => some (.float text, r)
    | none, none => (integer? s).map fun (n, r) => (.integer n, r)

/-- The table of the pairs between braces. -/
def inlineTable? (pairs : List ((List String × String) × Value)) : Option Value :=
  (pairs.foldlM (fun entries ((path, key), value) => put? path key value .inline entries) []).map
    (.table .inline)

mutual

/-- A value, with room for so many lists and tables inside each other. -/
def value? (room : Nat) (s : List Char) : Option (Value × Shorter s) :=
  match mark? '[' s with
  | some r =>
    if room = 0 then none
    else
      match mark? ']' (afterLines r).1 with
      | some q => some (.array [], (afterLines r).trans q)
      | none =>
        have := (afterLines r).2
        (items? (room - 1) (afterLines r).1).map fun (items, q) =>
          (.array items, (afterLines r).trans q)
  | none =>
    match mark? '\x7b' s with
    | some r =>
      if room = 0 then none
      else
        match mark? '\x7d' (afterBlanks r).1 with
        | some q => some (.table .inline [], (afterBlanks r).trans q)
        | none =>
          have := (afterBlanks r).2
          match pairs? (room - 1) (afterBlanks r).1 with
          | none => none
          | some (pairs, q) =>
            (inlineTable? pairs).map fun value => (value, (afterBlanks r).trans q)
    | none => scalar? s
termination_by (s.length, 0)

/-- Values separated by commas, perhaps with a comma after the last one, and the bracket that closes
them. -/
def items? (room : Nat) (s : List Char) : Option (List Value × Shorter s) :=
  match value? room s with
  | none => none
  | some (value, r) =>
    let r := afterLines r
    match mark? ']' r.1, mark? ',' r.1 with
    | some q, _ => some ([value], r.trans q)
    | none, some q =>
      let q := afterLines (r.trans q)
      match mark? ']' q.1 with
      | some p => some ([value], q.trans p)
      | none =>
        have := q.2
        (items? room q.1).map fun (items, p) => (value :: items, q.trans p)
    | none, none => none
termination_by (s.length, 1)

/-- Keys with values, separated by commas, and the brace that closes them. -/
def pairs? (room : Nat) (s : List Char) :
    Option (List ((List String × String) × Value) × Shorter s) :=
  match shortPath? s with
  | none => none
  | some (path, r) =>
    match mark? '=' r.1 with
    | none => none
    | some q =>
      let r := afterBlanks (r.trans q)
      have := r.2
      match value? room r.1 with
      | none => none
      | some (value, q) =>
        let r := afterBlanks (r.trans q)
        match mark? '\x7d' r.1, mark? ',' r.1 with
        | some q, _ => some ([(path, value)], r.trans q)
        | none, some q =>
          let q := afterBlanks (r.trans q)
          have := q.2
          (pairs? room q.1).map fun (pairs, p) => ((path, value) :: pairs, q.trans p)
        | none, none => none
termination_by (s.length, 1)

end

/-! ## Statements -/

/-- What a line says. -/
inductive Statement where
  /-- The keys that follow go into a table of their own. -/
  | table (path : List String) (key : String)
  /-- The keys that follow go into the next element of a list of tables. -/
  | element (path : List String) (key : String)
  /-- A dotted key has a value. -/
  | entry (path : List String) (key : String) (value : Value)

/-- A header between brackets. -/
def header? (s : List Char) : Option (Statement × Shorter s) :=
  match word? ['[', '['] s with
  | some r =>
    let r := afterBlanks r
    match shortPath? r.1 with
    | none => none
    | some ((path, key), q) =>
      let q := r.trans q
      (word? [']', ']'] q.1).map fun p => (.element path key, q.trans p)
  | none =>
    match mark? '[' s with
    | none => none
    | some r =>
      let r := afterBlanks r
      match shortPath? r.1 with
      | none => none
      | some ((path, key), q) =>
        let q := r.trans q
        (mark? ']' q.1).map fun p => (.table path key, q.trans p)

/-- A key with its value. -/
def binding? (s : List Char) : Option (Statement × Shorter s) :=
  match shortPath? s with
  | none => none
  | some ((path, key), r) =>
    match mark? '=' r.1 with
    | none => none
    | some q =>
      let r := afterBlanks (r.trans q)
      (value? maxDepth r.1).map fun (value, q) => (.entry path key value, r.trans q)

/-- A statement and the end of its line. -/
def statement? (s : List Char) : Option (Statement × Shorter s) :=
  match (header? s).or (binding? s) with
  | some (statement, r) => (afterLine? r).map fun q => (statement, q)
  | none => none

/-- The statements of a text. -/
def statements? (s : List Char) : Option (List Statement) :=
  have h := length_skipLines_le true s
  if (skipLines true s).isEmpty then some []
  else
    match statement? (skipLines true s) with
    -- the last comment needs no end of line
    | none => if (skipComment (skipLines true s)).isEmpty then some [] else none
    | some (statement, r) =>
      have : r.1.length < s.length := Nat.lt_of_lt_of_le r.2 h
      (statements? r.1).map (statement :: ·)
termination_by s.length

/-! ## Trees -/

/-- The tables built so far, and the path of the table that keys go into. -/
structure Builder where
  root : Entries
  path : List String

/-- Carry out a statement. -/
def Builder.step? (b : Builder) : Statement → Option Builder
  | .table path key => (openTable? path key b.root).map (⟨·, path ++ [key]⟩)
  | .element path key => (openElement? path key b.root).map (⟨·, path ++ [key]⟩)
  | .entry path key value =>
    (descend? false (put? path key value) b.path .header b.root).map (⟨·, b.path⟩)

/-- A text without the byte order mark at its start. -/
def skipOrderMark : List Char → List Char
  | '\uFEFF' :: rest => rest
  | s => s

/-- The entries of the outermost table of a text. -/
def read? (text : String) : Option Entries :=
  match statements? (skipOrderMark text.toList) with
  | some statements => (statements.foldlM Builder.step? ⟨[], []⟩).map (·.root)
  | none => none

end GraphConformance.Toml
