import GraphConformance.Evidence.Rules

/-!
# Translators

A `Translator` translates one pair after another and remembers what it found. The path of classes is
empty between pairs.
-/

set_option autoImplicit false

namespace GraphConformance

open Evidence

/-- What a translator remembers. -/
structure Translator where
  memo : Memo
  path : ClassPath

namespace Translator

/-- A translator that has translated nothing. -/
def new : Translator := ⟨.empty, .empty⟩

/-- The statements that witness an individual's membership, or why there is none. -/
def translate (t : Translator) (r : Reasoner) (e : Expression) (individual : Term) :
    Verdict × Translator :=
  let (verdict, memo) := Evidence.translate r t.path e individual t.memo
  (verdict, { t with memo := memo })

end Translator

end GraphConformance
