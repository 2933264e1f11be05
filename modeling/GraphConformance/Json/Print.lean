import GraphConformance.Json.Basic
import GraphConformance.Text.Radix

/-!
# Writing structured values

A value is written compactly, without white space, or laid out over lines with two spaces for each
level. Both write a text between quotes with quotes, backslashes and control characters escaped.
-/

set_option autoImplicit false

namespace GraphConformance.Json

open Text

/-- A character as it stands between quotes. -/
def escapeChar (c : Char) : List Char :=
  if c = '"' then ['\\', '"']
  else if c = '\\' then ['\\', '\\']
  else if c = '\n' then ['\\', 'n']
  else if c = '\r' then ['\\', 'r']
  else if c = '\t' then ['\\', 't']
  else if c = '\x08' then ['\\', 'b']
  else if c = '\x0c' then ['\\', 'f']
  else if c.toNat < 32 then ['\\', 'u', '0', '0', hexDigit (c.toNat / 16), hexDigit (c.toNat % 16)]
  else [c]

/-- A text between quotes. -/
def quoted (s : String) : List Char := '"' :: s.toList.flatMap escapeChar ++ ['"']

/-- The written form of a value that holds no other. -/
def scalarChars : Json → List Char
  | null => "null".toList
  | bool true => "true".toList
  | bool false => "false".toList
  | number text => text.toList
  | string s => quoted s
  | array _ => []
  | object _ => []

mutual

/-- A value without white space. -/
def compactChars : Json → List Char
  | array items => '[' :: compactItems items ++ [']']
  | object fields => '\x7b' :: compactFields fields ++ ['\x7d']
  | value => scalarChars value

/-- Items separated by commas. -/
def compactItems : List Json → List Char
  | [] => []
  | [value] => compactChars value
  | value :: next :: rest => compactChars value ++ ',' :: compactItems (next :: rest)

/-- Fields separated by commas. -/
def compactFields : List (String × Json) → List Char
  | [] => []
  | [(key, value)] => quoted key ++ ':' :: compactChars value
  | (key, value) :: next :: rest =>
    quoted key ++ ':' :: compactChars value ++ ',' :: compactFields (next :: rest)

end

/-- A line break and the indentation of a level. -/
def newLine (level : Nat) : List Char := '\n' :: List.replicate (2 * level) ' '

mutual

/-- A value laid out over lines, from a level of indentation. -/
def prettyChars (level : Nat) : Json → List Char
  | array [] => ['[', ']']
  | object [] => ['\x7b', '\x7d']
  | array (value :: rest) =>
    '[' :: prettyItems (level + 1) (value :: rest) ++ newLine level ++ [']']
  | object (field :: rest) =>
    '\x7b' :: prettyFields (level + 1) (field :: rest) ++ newLine level ++ ['\x7d']
  | value => scalarChars value

/-- Items on lines of their own. -/
def prettyItems (level : Nat) : List Json → List Char
  | [] => []
  | [value] => newLine level ++ prettyChars level value
  | value :: next :: rest =>
    newLine level ++ prettyChars level value ++ ',' :: prettyItems level (next :: rest)

/-- Fields on lines of their own. -/
def prettyFields (level : Nat) : List (String × Json) → List Char
  | [] => []
  | [(key, value)] => newLine level ++ quoted key ++ ':' :: ' ' :: prettyChars level value
  | (key, value) :: next :: rest =>
    newLine level ++ quoted key ++ ':' :: ' ' :: prettyChars level value ++
      ',' :: prettyFields level (next :: rest)

end

/-- The compact form of a value. -/
def compact (value : Json) : String := String.ofList (compactChars value)

/-- The form of a value over lines. -/
def pretty (value : Json) : String := String.ofList (prettyChars 0 value)

end GraphConformance.Json
