import GraphConformance.Text.Decimal

/-!
# Structured values

The values of reports: null, booleans, numbers, texts, lists and objects. A number is kept as it is
written, since only its text is ever shown. An object lists its fields by rising key, each key once;
`Json.ofFields` brings a list of fields into that form, where the last value of a key counts.
-/

set_option autoImplicit false

namespace GraphConformance

/-- A structured value. -/
inductive Json where
  | null
  | bool (b : Bool)
  | number (text : String)
  | string (s : String)
  | array (items : List Json)
  | object (fields : List (String × Json))
deriving Inhabited, BEq

namespace Json

/-- Set a key in fields that are listed by rising key. -/
def putField (key : String) (value : Json) : List (String × Json) → List (String × Json)
  | [] => [(key, value)]
  | (k, v) :: rest =>
    if key < k then (key, value) :: (k, v) :: rest
    else if key = k then (key, value) :: rest
    else (k, v) :: putField key value rest

/-- The object of a list of fields. -/
def ofFields (fields : List (String × Json)) : Json :=
  object (fields.foldl (fun sorted (key, value) => putField key value sorted) [])

/-- A natural number. -/
def nat (n : Nat) : Json := number (Text.decimalText n)

/-- A text, or null without one. -/
def ofOption : Option String → Json
  | some s => string s
  | none => null

/-- A list of texts. -/
def strings (texts : List String) : Json := array (texts.map string)

end Json

end GraphConformance
