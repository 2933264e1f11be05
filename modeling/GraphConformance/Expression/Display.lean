import GraphConformance.Expression.Basic

/-!
# Written form of expressions

The written form is for explanations: classes, properties and individuals are shown by their short
names, combinations and restrictions in parentheses, and a single individual in braces.
-/

set_option autoImplicit false

namespace GraphConformance.Expression

open Text

/-- A restriction of a property in parentheses. -/
def displayRestriction (property : Term) (rest : String) : String :=
  "(" ++ property.shortName ++ " " ++ rest ++ ")"

mutual

/-- The written form of an expression. -/
def display : Expression → String
  | top => "Thing"
  | bottom => "Nothing"
  | concept node => node.shortName
  | conj parts => "(" ++ displayParts " and " parts ++ ")"
  | disj parts => "(" ++ displayParts " or " parts ++ ")"
  | compl part => "not " ++ part.display
  | someOf p filler => displayRestriction p ("some " ++ filler.display)
  | onlyOf p filler => displayRestriction p ("only " ++ filler.display)
  | atLeast p n => displayRestriction p ("min " ++ decimalText n)
  | atMost p n => displayRestriction p ("max " ++ decimalText n)
  | exactly p n => displayRestriction p ("exactly " ++ decimalText n)
  | selfOf p => displayRestriction p "Self"
  | valueOf p v => displayRestriction p ("value " ++ v.shortName)
  | nominal a => "\x7b" ++ a.shortName ++ "\x7d"

/-- The written forms of expressions with a word between them. -/
def displayParts (word : String) : List Expression → String
  | [] => ""
  | [part] => part.display
  | part :: next :: rest => part.display ++ word ++ displayParts word (next :: rest)

end

end GraphConformance.Expression
