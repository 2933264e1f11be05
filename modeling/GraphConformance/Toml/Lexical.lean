import GraphConformance.Text.Radix

/-!
# Words of a configuration text

White space and comments, the ends of lines, quoted texts and keys. Quoted texts come in four forms:
between single or triple quotes of either kind, where double quotes allow escapes and triple quotes
allow line breaks.
-/

set_option autoImplicit false

namespace GraphConformance.Toml

open Text

/-! ## Gaps -/

/-- White space within a line. -/
def isBlank (c : Char) : Bool := c == ' ' || c == '\t'

/-- What may stand in comments and quoted texts: no control character but the tab. -/
def isPlain (c : Char) : Bool := c == '\t' || (32 ≤ c.toNat && c.toNat != 127)

/-- A text without the white space at its start. -/
def skipBlanks (s : List Char) : List Char := s.dropWhile isBlank

/-- A text without the comment at its start. -/
def skipComment : List Char → List Char
  | '#' :: rest => rest.dropWhile isPlain
  | s => s

/-- The text after a line break. -/
def newline? (s : List Char) : Option (Shorter s) := (mark? '\n' s).or (word? ['\r', '\n'] s)

theorem length_skipBlanks_le (s : List Char) : (skipBlanks s).length ≤ s.length :=
  length_dropWhile_le isBlank s

theorem length_skipComment_le (s : List Char) : (skipComment s).length ≤ s.length := by
  unfold skipComment
  split
  · exact Nat.le_succ_of_le (length_dropWhile_le isPlain _)
  · exact Nat.le_refl _

/-- A text without the white space and line breaks at its start, and without comments where these
are allowed. -/
def skipLines (comments : Bool) (s : List Char) : List Char :=
  match newline? (if comments then skipComment (skipBlanks s) else skipBlanks s) with
  | some r =>
    have : r.1.length < s.length := by
      have := r.2
      have := length_skipBlanks_le s
      have := length_skipComment_le (skipBlanks s)
      split at * <;> omega
    skipLines comments r.1
  | none => skipBlanks s
termination_by s.length

theorem length_skipLines_le (comments : Bool) (s : List Char) :
    (skipLines comments s).length ≤ s.length := by
  fun_induction skipLines comments s with
  | case1 s r _ h ih => omega
  | case2 s => exact length_skipBlanks_le s

/-- A rest after white space. -/
def afterBlanks {s : List Char} (r : Shorter s) : Shorter s := r.shrink length_skipBlanks_le

/-- A rest after white space, line breaks and comments. -/
def afterLines {s : List Char} (r : Shorter s) : Shorter s := r.shrink (length_skipLines_le true)

/-- A rest after the end of the line: white space and a comment may precede it, and the end of the
text ends a line too. -/
def afterLine? {s : List Char} (r : Shorter s) : Option (Shorter s) :=
  let q := (afterBlanks r).shrink length_skipComment_le
  if q.1.isEmpty then some q else (newline? q.1).map q.trans

/-! ## Quoted texts -/

/-- What a letter after a backslash stands for. -/
def simpleEscape? (c : Char) : Option Char :=
  if c = '"' ∨ c = '\\' then some c
  else if c = 'b' then some '\x08'
  else if c = 'f' then some '\x0c'
  else if c = 'n' then some '\n'
  else if c = 'r' then some '\r'
  else if c = 't' then some '\t'
  else none

/-- The character of a number, which is no surrogate. -/
def charOf? (n : Nat) : Option Char := if n.isValidChar then some (Char.ofNat n) else none

/-- An escape after its backslash: a letter, or a character by its number. -/
def escape? : (s : List Char) → Option (Char × Shorter s)
  | [] => none
  | c :: rest =>
    if c = 'u' ∨ c = 'U' then
      match fixed? 16 (if c = 'u' then 4 else 8) rest with
      | some (n, r) => (charOf? n).map fun x => (x, r.cons c)
      | none => none
    else (simpleEscape? c).map fun x => (x, .tail c rest)

/-- The rest of a text on one line after its opening quote. -/
def oneLine? (quote : Char) (s : List Char) : Option (List Char × Shorter s) :=
  match s with
  | [] => none
  | c :: rest =>
    if c = quote then some ([], .tail c rest)
    else if c = '\\' ∧ quote = '"' then
      match escape? rest with
      | none => none
      | some (x, r) =>
        (oneLine? quote r.1).map fun (text, q) => (x :: text, (r.trans q).cons c)
    else if isPlain c then (oneLine? quote rest).map fun (text, r) => (c :: text, r.cons c)
    else none
termination_by s.length
decreasing_by
  · exact Nat.lt_succ_of_lt r.2
  · exact Nat.lt_succ_self _

/-- The rest of a line after a backslash, if nothing but white space is left of it: the text goes on
with the next character that is neither white space nor a line break. -/
def continuation? (s : List Char) : Option { r : List Char // r.length ≤ s.length } :=
  match newline? (skipBlanks s) with
  | some _ => some ⟨skipLines false s, length_skipLines_le false s⟩
  | none => none

/-- The rest of a text over lines after its opening quotes. One or two quotes are part of the text,
also before the three that close it. -/
def overLines? (quote : Char) (s : List Char) : Option (List Char × Shorter s) :=
  match s with
  | [] => none
  | c :: rest =>
    if c = quote then
      let more := (rest.takeWhile (· = quote)).length
      if 2 ≤ more then
        some (List.replicate (min (more - 2) 2) quote,
          ⟨rest.drop (min more 4), by rw [List.length_drop, List.length_cons]; omega⟩)
      else (overLines? quote rest).map fun (text, r) => (c :: text, r.cons c)
    else if c = '\\' ∧ quote = '"' then
      match continuation? rest with
      | some r =>
        (overLines? quote r.1).map fun (text, q) =>
          (text, ⟨q.1, Nat.lt_trans q.2 (Nat.lt_succ_of_le r.2)⟩)
      | none =>
        match escape? rest with
        | none => none
        | some (x, r) =>
          (overLines? quote r.1).map fun (text, q) => (x :: text, (r.trans q).cons c)
    else
      match newline? (c :: rest) with
      | some r => (overLines? quote r.1).map fun (text, q) => ('\n' :: text, r.trans q)
      | none =>
        if isPlain c then (overLines? quote rest).map fun (text, r) => (c :: text, r.cons c)
        else none
termination_by s.length
decreasing_by
  · exact Nat.lt_succ_self _
  · exact Nat.lt_succ_of_le r.2
  · exact Nat.lt_succ_of_lt r.2
  · exact r.2
  · exact Nat.lt_succ_self _

/-- A text on one line between quotes of one kind. -/
def lineText? (quote : Char) (s : List Char) : Option (String × Shorter s) :=
  match mark? quote s with
  | some r => (oneLine? quote r.1).map fun (text, q) => (String.ofList text, r.trans q)
  | none => none

/-- A text over lines between triple quotes of one kind. A line break right after the opening quotes
is no part of it. -/
def blockText? (quote : Char) (s : List Char) : Option (String × Shorter s) :=
  match word? [quote, quote, quote] s with
  | some r =>
    let r := ((newline? r.1).map r.trans).getD r
    (overLines? quote r.1).map fun (text, q) => (String.ofList text, r.trans q)
  | none => none

/-- A quoted text. -/
def text? (s : List Char) : Option (String × Shorter s) :=
  (((blockText? '"' s).or (blockText? '\x27' s)).or (lineText? '"' s)).or (lineText? '\x27' s)

/-! ## Keys -/

/-- What keys without quotes are made of. -/
def isBare (c : Char) : Bool := c.isAlphanum || c == '_' || c == '-'

/-- A key between dots. -/
def key? (s : List Char) : Option (String × Shorter s) :=
  ((lineText? '"' s).or (lineText? '\x27' s)).or
    ((run? isBare s).map fun (text, r) => (String.ofList text, r))

/-- Keys separated by dots, and the white space after them: the last one, and those before it. -/
def path? (s : List Char) : Option ((List String × String) × Shorter s) :=
  match key? s with
  | none => none
  | some (key, r) =>
    let r := afterBlanks r
    match mark? '.' r.1 with
    | none => some (([], key), r)
    | some q =>
      let q := afterBlanks (r.trans q)
      have := q.2
      (path? q.1).map fun ((keys, last), p) => ((key :: keys, last), q.trans p)
termination_by s.length

/-- How many keys a path has at most. -/
def maxPath : Nat := 79

/-- A path of admissible length. -/
def shortPath? (s : List Char) : Option ((List String × String) × Shorter s) :=
  (path? s).filter fun (path, _) => path.1.length < maxPath

end GraphConformance.Toml
