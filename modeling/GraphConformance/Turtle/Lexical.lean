import GraphConformance.Term
import GraphConformance.Text.Alphanumeric
import GraphConformance.Text.Shorter

/-!
# The smallest parts of a document

Each reader answers what stands at the start of a text together with a shorter rest; only the gap
between tokens (`skip`) may be empty.

A name runs as far as its characters go, but the dots at its end are left to the statement. A quoted
string has four forms, and the long ones are tried before the short ones.
-/

set_option autoImplicit false

namespace GraphConformance.Turtle

open Text Vocabulary

/-! ## Gaps -/

/-- The text after the gap at its start: characters of the class, and comments, which start at `#`
and run to the end of their line. -/
def skipGap (isGap : Char → Bool) (inComment : Bool) : List Char → List Char
  | [] => []
  | c :: rest =>
    if inComment then skipGap isGap (c != '\n') rest
    else if isGap c then skipGap isGap false rest
    else if c = '#' then skipGap isGap true rest
    else c :: rest

theorem length_skipGap_le (isGap : Char → Bool) (inComment : Bool) (s : List Char) :
    (skipGap isGap inComment s).length ≤ s.length := by
  induction s generalizing inComment with
  | nil => simp [skipGap]
  | cons c rest ih =>
    simp only [skipGap, List.length_cons]
    split
    · exact Nat.le_succ_of_le (ih _)
    · split
      · exact Nat.le_succ_of_le (ih _)
      · split
        · exact Nat.le_succ_of_le (ih _)
        · simp

/-- The text after blanks and comments. -/
def skip (s : List Char) : List Char := skipGap isBlank false s

/-- The text after blanks, comments and semicolons. -/
def skipSemicolons (s : List Char) : List Char :=
  skipGap (fun c => isBlank c || c == ';') false s

theorem length_skip_le (s : List Char) : (skip s).length ≤ s.length :=
  length_skipGap_le _ _ _

theorem length_skipSemicolons_le (s : List Char) : (skipSemicolons s).length ≤ s.length :=
  length_skipGap_le _ _ _

end GraphConformance.Turtle

namespace GraphConformance.Text.Shorter

/-- A rest after the gap at its start. -/
def skip {s : List Char} (r : Shorter s) : Shorter s := r.shrink Turtle.length_skip_le

/-- A rest after the gap and the semicolons at its start. -/
def skipSemicolons {s : List Char} (r : Shorter s) : Shorter s :=
  r.shrink Turtle.length_skipSemicolons_le

end GraphConformance.Text.Shorter

namespace GraphConformance.Turtle

open Text Vocabulary

/-! ## Keywords -/

/-- Whether the text starts with a keyword, in any letter case, and white space after it. -/
def startsWithKeyword (keyword s : List Char) : Bool :=
  (s.take keyword.length).map Char.toLower == keyword.map Char.toLower
    && (match s.drop keyword.length with
        | [] => false
        | c :: _ => isWhiteSpace c)

/-! ## Names and references -/

/-- Characters of prefix names and labels. -/
def isNameChar (c : Char) : Bool := isAlphanumeric c || c == '_' || c == '-'

/-- Characters of the part of a name after its colon. -/
def isLocalChar (c : Char) : Bool := isNameChar c || c == '.'

/-- Characters between angle brackets. -/
def isReferenceChar (c : Char) : Bool := c != '>' && c != ' ' && c != '\n' && c != '\r'

/-- Characters that would continue a word. -/
def continuesWord (c : Char) : Bool := isNameChar c || c == ':'

/-- A reference between angle brackets. -/
def reference? (s : List Char) : Option (List Char × Shorter s) :=
  match s with
  | '<' :: rest =>
    match mark? '>' (rest.dropWhile isReferenceChar) with
    | some r =>
      some (rest.takeWhile isReferenceChar,
        ⟨r.1, Nat.lt_succ_of_lt (Nat.lt_of_lt_of_le r.2 (length_dropWhile_le _ rest))⟩)
    | none => none
  | _ => none

/-- A name without the dots at its end. -/
def trimDots (name : List Char) : List Char := (name.reverse.dropWhile (· == '.')).reverse

/-- A prefix and a local name with a colon between them. -/
def prefixedName? (s : List Char) : Option ((List Char × List Char) × Shorter s) :=
  match mark? ':' (s.dropWhile isNameChar) with
  | some r =>
    let suffix := trimDots (r.1.takeWhile isLocalChar)
    some ((s.takeWhile isNameChar, suffix),
      ⟨r.1.drop suffix.length,
        Nat.lt_of_le_of_lt (by simp) (Nat.lt_of_lt_of_le r.2 (length_dropWhile_le _ s))⟩)
  | none => none

/-- The label of a blank node. -/
def label? (s : List Char) : Option (List Char × Shorter s) :=
  match word? ['_', ':'] s with
  | some r => (run? isNameChar r.1).map fun (name, q) => (name, r.trans q)
  | none => none

/-- Whether a term may stand right after the word `a`. -/
def mayFollowShorthand : List Char → Bool
  | '_' :: ':' :: _ => true
  | c :: _ => isBlank c || c == '<' || c == '[' || c == '('
  | [] => false

/-- The word `a` in place of `rdf:type`, where a term may follow it. -/
def typeShorthand? (s : List Char) : Option (Shorter s) :=
  match s with
  | 'a' :: rest => if mayFollowShorthand rest then some (.tail 'a' rest) else none
  | _ => none

/-! ## Numbers and truth values -/

/-- A run of digits after a dot. -/
def fraction? (s : List Char) : Option (List Char × Shorter s) :=
  match mark? '.' s with
  | some r => (run? Char.isDigit r.1).map fun (digits, q) => ('.' :: digits, r.trans q)
  | none => none

/-- An exponent: a letter, perhaps a sign, and digits. -/
def exponent? (s : List Char) : Option (List Char × Shorter s) :=
  match s with
  | [] => none
  | e :: rest =>
    if e = 'e' ∨ e = 'E' then
      match rest with
      | [] => none
      | c :: after =>
        if c = '+' ∨ c = '-' then
          (run? Char.isDigit after).map fun (digits, q) => (e :: c :: digits, (q.cons c).cons e)
        else (run? Char.isDigit (c :: after)).map fun (digits, q) => (e :: digits, q.cons e)
    else none

/-- A number without sign: digits, perhaps a fraction, perhaps an exponent. A number with an
exponent is a double, one with a fraction a decimal, any other an integer. -/
def unsigned? (s : List Char) : Option ((List Char × Iri) × Shorter s) :=
  match run? Char.isDigit s with
  | none => none
  | some (digits, r) =>
    match fraction? r.1 with
    | none =>
      match exponent? r.1 with
      | none => some ((digits, Xsd.integer), r)
      | some (power, q) => some ((digits ++ power, Xsd.double), r.trans q)
    | some (places, r') =>
      match exponent? r'.1 with
      | none => some ((digits ++ places, Xsd.decimal), r.trans r')
      | some (power, q) => some ((digits ++ places ++ power, Xsd.double), (r.trans r').trans q)

/-- A number; a plus sign in front is dropped. -/
def number? (s : List Char) : Option (Literal × Shorter s) :=
  match s with
  | '-' :: rest =>
    (unsigned? rest).map fun ((digits, datatype), r) =>
      (⟨String.ofList ('-' :: digits), .typed datatype⟩, r.cons '-')
  | '+' :: rest =>
    (unsigned? rest).map fun ((digits, datatype), r) =>
      (⟨String.ofList digits, .typed datatype⟩, r.cons '+')
  | s =>
    (unsigned? s).map fun ((digits, datatype), r) => (⟨String.ofList digits, .typed datatype⟩, r)

/-- Whether a text cannot continue a word. -/
def endsWordHere (s : List Char) : Bool :=
  match s with
  | [] => true
  | c :: _ => !continuesWord c

/-- One of two words for a truth value, with no longer word around it. -/
def truthValue? (s : List Char) : Option (Literal × Shorter s) :=
  match word? "true".toList s with
  | some r => if endsWordHere r.1 then some (⟨"true", .typed Xsd.boolean⟩, r) else none
  | none =>
    match word? "false".toList s with
    | some r => if endsWordHere r.1 then some (⟨"false", .typed Xsd.boolean⟩, r) else none
    | none => none

/-! ## Quoted strings -/

/-- The body of a one-line string up to its closing quote, escapes as they stand. -/
def shortBody? (quote : Char) : (s : List Char) → Option (List Char × Shorter s)
  | [] => none
  | c :: rest =>
    if c = quote then some ([], .tail c rest)
    else if c = '\n' then none
    else if c = '\\' then
      match rest with
      | [] => none
      | d :: after =>
        (shortBody? quote after).map fun (body, r) => (c :: d :: body, (r.cons d).cons c)
    else (shortBody? quote rest).map fun (body, r) => (c :: body, r.cons c)

/-- A string on one line between single quote characters. -/
def shortString? (quote : Char) (s : List Char) : Option (List Char × Shorter s) :=
  match mark? quote s with
  | some r => (shortBody? quote r.1).map fun (body, q) => (body, r.trans q)
  | none => none

theorem length_after_breakBefore_le {pattern text before after : List Char}
    (h : breakBefore pattern text = some (before, after)) : after.length ≤ text.length := by
  rw [← append_of_breakBefore h]
  simp

/-- A string between triple quote characters; it ends at the first three in a row. -/
def longString? (quote : Char) (s : List Char) : Option (List Char × Shorter s) :=
  match word? [quote, quote, quote] s with
  | some r =>
    match h : breakBefore [quote, quote, quote] r.1 with
    | some (body, after) =>
      some (body,
        ⟨after.drop 3, Nat.lt_of_le_of_lt (by simp)
          (Nat.lt_of_le_of_lt (length_after_breakBefore_le h) r.2)⟩)
    | none => none
  | none => none

/-- What a backslash and a character stand for; an unknown escape stands for itself. -/
def unescapeChar (c : Char) : List Char :=
  if c = 'n' then ['\n']
  else if c = 'r' then ['\r']
  else if c = 't' then ['\t']
  else if c = '\\' then ['\\']
  else if c = '"' then ['"']
  else if c = '\x27' then ['\x27']
  else ['\\', c]

/-- The text that the body of a string stands for. -/
def unescape : List Char → List Char
  | [] => []
  | [c] => [c]
  | c :: d :: rest =>
    if c = '\\' then unescapeChar d ++ unescape rest else c :: unescape (d :: rest)

/-- A quoted string in any of its four forms. -/
def string? (s : List Char) : Option (List Char × Shorter s) :=
  let body? := ((longString? '"' s).or (longString? '\x27' s)).or
    ((shortString? '"' s).or (shortString? '\x27' s))
  body?.map fun (body, r) => (unescape body, r)

end GraphConformance.Turtle
