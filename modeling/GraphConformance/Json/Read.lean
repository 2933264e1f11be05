import GraphConformance.Json.Basic
import GraphConformance.Json.Number
import GraphConformance.Text.Radix

/-!
# Reading structured values

`Json.read?` reads a text that holds one value and nothing else but white space. The form is strict:
no superfluous commas, no control characters in texts, escaped surrogates in pairs only, numbers in
range, and at most `maxDepth` lists and objects inside each other.
-/

set_option autoImplicit false

namespace GraphConformance.Json

open Text

/-- How many lists and objects may be open at once. -/
def maxDepth : Nat := 127

/-- White space between the parts of a value. -/
def isGap (c : Char) : Bool := c == ' ' || c == '\n' || c == '\t' || c == '\r'

/-- A rest after white space. -/
def afterGap {s : List Char} (r : Shorter s) : Shorter s := r.shrink (length_dropWhile_le isGap)

/-! ## Texts -/

/-- Four hexadecimal digits. -/
def codeUnit? (s : List Char) : Option (Nat × Shorter s) := fixed? 16 4 s

/-- The character of an escape by number: one unit, or a pair of surrogates. -/
def unicode? (s : List Char) : Option (Char × Shorter s) :=
  match codeUnit? s with
  | none => none
  | some (high, r) =>
    if high < 0xD800 ∨ 0xDFFF < high then some (Char.ofNat high, r)
    else if 0xDC00 ≤ high then none
    else
      match word? ['\\', 'u'] r.1 with
      | none => none
      | some q =>
        match codeUnit? q.1 with
        | none => none
        | some (low, p) =>
          if 0xDC00 ≤ low ∧ low ≤ 0xDFFF then
            some (Char.ofNat (0x10000 + (high - 0xD800) * 0x400 + (low - 0xDC00)),
              (r.trans q).trans p)
          else none

/-- What a letter after a backslash stands for. -/
def simpleEscape? (c : Char) : Option Char :=
  if c = '"' ∨ c = '\\' ∨ c = '/' then some c
  else if c = 'b' then some '\x08'
  else if c = 'f' then some '\x0c'
  else if c = 'n' then some '\n'
  else if c = 'r' then some '\r'
  else if c = 't' then some '\t'
  else none

/-- An escape after its backslash. -/
def escape? : (s : List Char) → Option (Char × Shorter s)
  | [] => none
  | c :: rest =>
    if c = 'u' then (unicode? rest).map fun (x, r) => (x, r.cons c)
    else (simpleEscape? c).map fun x => (x, .tail c rest)

/-- The rest of a text after its opening quote. -/
def body? (s : List Char) : Option (List Char × Shorter s) :=
  match s with
  | [] => none
  | c :: rest =>
    if c = '"' then some ([], .tail c rest)
    else if c = '\\' then
      match escape? rest with
      | none => none
      | some (x, r) =>
        (body? r.1).map fun (text, q) => (x :: text, (r.trans q).cons c)
    else if c.toNat < 32 then none
    else (body? rest).map fun (text, r) => (c :: text, r.cons c)
termination_by s.length
decreasing_by
  · exact Nat.lt_succ_of_lt r.2
  · exact Nat.lt_succ_self _

/-- A text between quotes. -/
def text? (s : List Char) : Option (String × Shorter s) :=
  match mark? '"' s with
  | some r => (body? r.1).map fun (text, q) => (String.ofList text, r.trans q)
  | none => none

/-! ## Values -/

/-- A value that holds no other. -/
def scalar? (s : List Char) : Option (Json × Shorter s) :=
  match word? "null".toList s, word? "true".toList s, word? "false".toList s with
  | some r, _, _ => some (null, r)
  | _, some r, _ => some (bool true, r)
  | _, _, some r => some (bool false, r)
  | none, none, none =>
    match text? s with
    | some (text, r) => some (string text, r)
    | none => (number? s).map fun (text, r) => (number text, r)

mutual

/-- A value, with room for so many lists and objects inside each other. -/
def value? (room : Nat) (s : List Char) : Option (Json × Shorter s) :=
  match mark? '[' s with
  | some r =>
    if room = 0 then none
    else
      match mark? ']' (afterGap r).1 with
      | some q => some (array [], (afterGap r).trans q)
      | none =>
        have := (afterGap r).2
        (items? (room - 1) (afterGap r).1).map fun (items, q) =>
          (array items, (afterGap r).trans q)
  | none =>
    match mark? '\x7b' s with
    | some r =>
      if room = 0 then none
      else
        match mark? '\x7d' (afterGap r).1 with
        | some q => some (object [], (afterGap r).trans q)
        | none =>
          have := (afterGap r).2
          (fields? (room - 1) (afterGap r).1).map fun (fields, q) =>
            (ofFields fields, (afterGap r).trans q)
    | none => scalar? s
termination_by (s.length, 0)

/-- Values separated by commas, and the bracket that closes them. -/
def items? (room : Nat) (s : List Char) : Option (List Json × Shorter s) :=
  match value? room s with
  | none => none
  | some (value, r) =>
    let r := afterGap r
    match mark? ']' r.1, mark? ',' r.1 with
    | some q, _ => some ([value], r.trans q)
    | none, some q =>
      let q := afterGap (r.trans q)
      have := q.2
      (items? room q.1).map fun (items, p) => (value :: items, q.trans p)
    | none, none => none
termination_by (s.length, 1)

/-- Fields separated by commas, and the brace that closes them. -/
def fields? (room : Nat) (s : List Char) : Option (List (String × Json) × Shorter s) :=
  match text? s with
  | none => none
  | some (key, r) =>
    let r := afterGap r
    match mark? ':' r.1 with
    | none => none
    | some q =>
      let r := afterGap (r.trans q)
      have := r.2
      match value? room r.1 with
      | none => none
      | some (value, q) =>
        let r := afterGap (r.trans q)
        match mark? '\x7d' r.1, mark? ',' r.1 with
        | some q, _ => some ([(key, value)], r.trans q)
        | none, some q =>
          let q := afterGap (r.trans q)
          have := q.2
          (fields? room q.1).map fun (fields, p) => ((key, value) :: fields, q.trans p)
        | none, none => none
termination_by (s.length, 1)

end

/-- The value that a text holds. -/
def read? (text : String) : Option Json :=
  match value? maxDepth (text.toList.dropWhile isGap) with
  | some (value, r) => if (r.1.dropWhile isGap).isEmpty then some value else none
  | none => none

end GraphConformance.Json
