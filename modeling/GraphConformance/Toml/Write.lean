import GraphConformance.Text.Decimal
import GraphConformance.Toml.Lexical
import GraphConformance.Toml.Value

/-!
# Writing configuration texts

A text is written in the plainest form that can hold it: between double quotes without escapes,
between single quotes, over lines without escapes between triple quotes of either kind, and with
escapes at last. Keys are bare where they can be. Sections follow each other with an empty line
between them, and lists of two or more items have a line for each.
-/

set_option autoImplicit false

namespace GraphConformance.Toml

/-! ## Texts -/

/-- A character as an escape, if it cannot stand for itself between double quotes. Line breaks can
where the text may have several lines. -/
def escapeOf? (overLines : Bool) (c : Char) : Option (List Char) :=
  if c = '\\' then some ['\\', '\\']
  else if c = '\x08' then some ['\\', 'b']
  else if c = '\t' then some ['\\', 't']
  else if c = '\n' then if overLines then none else some ['\\', 'n']
  else if c = '\x0c' then some ['\\', 'f']
  else if c = '\r' then some ['\\', 'r']
  else if c.toNat < 32 ∨ c.toNat = 127 then
    some ['\\', 'u', '0', '0', Text.hexDigit (c.toNat / 16),
      (Text.hexDigit (c.toNat % 16)).toUpper]
  else none

/-- A text with escapes. So many double quotes in a row stand for themselves; `run` of them come
right before the text. -/
def escaped (room run : Nat) : List Char → List Char
  | [] => []
  | c :: rest =>
    if c = '"' then
      if run < room then c :: escaped room (run + 1) rest else '\\' :: c :: escaped room 0 rest
    else
      match escapeOf? (0 < room) c with
      | some e => e ++ escaped room 0 rest
      | none => c :: escaped room 0 rest

/-- The length of the longest run of a character. -/
def longestRun (c : Char) (s : List Char) : Nat :=
  (s.foldl (fun (run, longest) x =>
    if x = c then (run + 1, max longest (run + 1)) else (0, longest)) (0, 0)).2

/-- Whether a character needs an escape in every form. -/
def needsEscape (c : Char) : Bool := !isPlain c && c != '\n'

/-- A text on one line between quotes. -/
def onLine (quote : Char) (body : List Char) : List Char := quote :: body ++ [quote]

/-- A text between triple quotes. One that has several lines starts on a line of its own. -/
def asBlock (quote : Char) (breaks : Bool) (body : List Char) : List Char :=
  let quotes := List.replicate 3 quote
  quotes ++ (if breaks then '\n' :: body else body) ++ quotes

/-- The written form of a text. -/
def quoted (s : List Char) : List Char :=
  let codes := s.any needsEscape
  let backslash := s.contains '\\'
  let breaks := s.contains '\n'
  let double := longestRun '"' s
  let single := longestRun '\x27' s
  if !codes && !backslash && double == 0 && !breaks then onLine '"' (escaped 0 0 s)
  else if !codes && single == 0 && !breaks then onLine '\x27' s
  else if !codes && !backslash && double ≤ 2 then asBlock '"' breaks (escaped 2 0 s)
  else if !codes && single ≤ 2 then asBlock '\x27' breaks s
  else if breaks then asBlock '"' breaks (escaped 2 0 s)
  else onLine '"' (escaped 0 0 s)

/-- The written form of a key. -/
def keyText (key : String) : List Char :=
  let s := key.toList
  if !s.isEmpty && s.all isBare then s
  else
    let codes := s.any fun c => !isPlain c
    if !codes && !s.contains '\\' && !s.contains '"' then onLine '"' (escaped 0 0 s)
    else if !codes && !s.contains '\x27' then onLine '\x27' s
    else onLine '"' (escaped 0 0 s)

/-! ## Values -/

/-- The written form of an integer. -/
def integerText : Int → List Char
  | .ofNat n => Text.decimal n
  | .negSucc n => '-' :: Text.decimal (n + 1)

mutual

/-- The written form of a value. Tables within values stand between braces. -/
def valueText : Value → List Char
  | .string text => quoted text.toList
  | .integer n => integerText n
  | .float text => text.toList
  | .boolean true => "true".toList
  | .boolean false => "false".toList
  | .moment m => m.text.toList
  | .array [] => ['[', ']']
  | .array [item] => '[' :: valueText item ++ [']']
  | .array (item :: next :: rest) =>
    '[' :: itemLines (item :: next :: rest) ++ ['\n', ']']
  | .table _ entries => '\x7b' :: pairTexts entries ++ ['\x7d']
  | .tables elements => '[' :: elementLines elements ++ ['\n', ']']

/-- Items on lines of their own, a comma after each. -/
def itemLines : List Value → List Char
  | [] => []
  | item :: rest => "\n    ".toList ++ valueText item ++ ',' :: itemLines rest

/-- Pairs of keys and values, separated by commas. -/
def pairTexts : List (String × Value) → List Char
  | [] => []
  | [(key, value)] => ' ' :: keyText key ++ " = ".toList ++ valueText value ++ [' ']
  | (key, value) :: next :: rest =>
    ' ' :: keyText key ++ " = ".toList ++ valueText value ++ ',' :: pairTexts (next :: rest)

/-- Tables between braces, on lines of their own. -/
def elementLines : List (List (String × Value)) → List Char
  | [] => []
  | entries :: rest =>
    "\n    \x7b".toList ++ pairTexts entries ++ '\x7d' :: ',' :: elementLines rest

end

/-! ## Sections -/

/-- A key with its value on a line. -/
def entryLine : String × Value → List Char
  | (key, value) => keyText key ++ " = ".toList ++ valueText value ++ ['\n']

/-- A table with its header. -/
def sectionText : String × Entries → List Char
  | (key, entries) => '[' :: keyText key ++ [']', '\n'] ++ entries.flatMap entryLine

/-- Tables with their headers, an empty line between them. -/
def sectionsText (sections : List (String × Entries)) : String :=
  String.ofList (['\n'].intercalate (sections.map sectionText))

end GraphConformance.Toml
