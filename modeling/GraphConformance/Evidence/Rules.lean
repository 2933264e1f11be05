import GraphConformance.Expression.Display
import GraphConformance.Knowledge.Reasoner
import GraphConformance.Evidence.Memo
import GraphConformance.Evidence.Path

/-!
# Rules of evidence

To translate an individual against an expression is to check, by what is asserted and nothing else,
that it belongs there, and to collect the statements that witness it. An intersection needs all its
parts and a union one of them, a complement that its part fails. A restriction is checked on the
asserted values of its property. A class needs membership or a definition, and then all of its told
super-classes and equivalents.

`evaluate` goes by the structure of the expression and leaves the definitions of classes to a
function; `translate` supplies that function, for so many definitions inside each other.
-/

set_option autoImplicit false

namespace GraphConformance.Evidence

open Vocabulary Text

/-- The expression for a type of an individual. -/
def typeExpression : Term → Expression
  | .iri i => .named i
  | t => .concept t

/-! ## Values and restrictions -/

/-- The asserted values of a property. A literal has none. -/
def values (r : Reasoner) (path : ClassPath) (property individual : Term) :
    Except Failure (List Term) :=
  match individual with
  | .literal _ => .ok []
  | _ =>
    match r.edges individual with
    | .ok edges => .ok ((edges.filter (·.1 = property)).map Prod.snd)
    | .error e => .error (path.queryFailure e individual)

/-- Work on the asserted values of a property. -/
def onValues (r : Reasoner) (path : ClassPath) (property individual : Term)
    (work : List Term → Work) : Work := fun m =>
  match values r path property individual with
  | .ok vs => work vs m
  | .error failure => (.error failure, m)

/-- The failure of a restriction. -/
def violation (path : ClassPath) (restriction : Restriction) (property : Term)
    (expected observed : Nat) (cause : Option Failure) (individual : Term) (explanation : String) :
    Failure :=
  path.failure (.restrictionViolation restriction property expected observed cause) individual
    explanation

/-- The first value that belongs to the filler, or the failure of the last value. -/
def firstMember (work : Term → Work) : List Term → Option Failure → Memo →
    Except (Option Failure) (Term × List Triple) × Memo
  | [], failure, m => (.error failure, m)
  | v :: rest, _, m =>
    match work v m with
    | (.ok found, m) => (.ok (v, found), m)
    | (.error failure, m) => firstMember work rest (some failure) m

/-- Some value belongs to the filler. -/
def checkSome (path : ClassPath) (work : Term → Work) (property : Term) (filler : Expression)
    (individual : Term) (vs : List Term) : Work := fun m =>
  match firstMember work vs none m with
  | (.ok (v, found), m) => (.ok (Distinct.union [⟨individual, property, v⟩] found), m)
  | (.error cause, m) =>
    let explanation :=
      if vs.isEmpty then
        individual.shortName ++ " has no value for " ++ property.shortName
      else
        "none of the " ++ decimalText vs.length ++ " values of " ++ property.shortName ++ " on " ++
          individual.shortName ++ " is a " ++ filler.display
    (.error (violation path .someValuesFrom property 1 0 cause individual explanation), m)

/-- The statements of the values that belong to the filler. -/
def memberStatements (property individual : Term) (verdicts : List (Term × Verdict)) :
    List Triple :=
  verdicts.foldl (fun statements (v, verdict) =>
    match verdict with
    | .ok found =>
      Distinct.union (Distinct.insertLast statements ⟨individual, property, v⟩) found
    | .error _ => statements) []

/-- Every value belongs to the filler. -/
def checkOnly (path : ClassPath) (work : Term → Work) (property : Term) (filler : Expression)
    (individual : Term) (vs : List Term) : Work := fun m =>
  let (verdicts, m) := each (vs.map work) m
  match failures verdicts with
  | [] => (.ok (memberStatements property individual (vs.zip verdicts)), m)
  | cause :: rest =>
    let satisfied := vs.length - (rest.length + 1)
    let explanation :=
      "only " ++ decimalText satisfied ++ " of " ++ decimalText vs.length ++ " values of " ++
        property.shortName ++ " on " ++ individual.shortName ++ " are a " ++ filler.display
    (.error (violation path .allValuesFrom property vs.length satisfied (some cause) individual
      explanation), m)

/-- The values are counted, whatever they are; of the upper bounds only zero is checked. -/
def checkCount (path : ClassPath) (restriction : Restriction) (property : Term) (bound : Nat)
    (individual : Term) (vs : List Term) : Verdict :=
  let observed := vs.length
  if restriction ≠ .maxCardinality ∧ observed < bound then
    .error (violation path restriction property bound observed none individual
      (individual.shortName ++ " needs at least " ++ decimalText bound ++ " values for " ++
        property.shortName ++ ", found " ++ decimalText observed))
  else if restriction ≠ .minCardinality ∧ bound = 0 ∧ 0 < observed then
    .error (violation path restriction property 0 observed none individual
      (individual.shortName ++ " must have no value for " ++ property.shortName ++ ", found " ++
        decimalText observed))
  else .ok (Distinct.dedup (vs.map fun v => ⟨individual, property, v⟩))

/-- The property relates the individual to itself. -/
def checkSelf (path : ClassPath) (property individual : Term) (vs : List Term) : Verdict :=
  if individual ∈ vs then .ok [⟨individual, property, individual⟩]
  else
    .error (violation path .hasSelf property 1 0 none individual
      (individual.shortName ++ " is not related to itself by " ++ property.shortName))

/-! ## Classes, unions and complements -/

/-- The failure of an individual that is no member of a class. -/
def notMember (path : ClassPath) (c individual : Term) (explanation : String) : Failure :=
  { path.failure .notAMember individual explanation with inClass := some c }

/-- A literal belongs to the class of all literals and to its datatype. -/
def checkDatatype (path : ClassPath) (c : Term) (l : Literal) : Verdict :=
  if c = .iri Rdfs.literal ∨ c = .iri l.effectiveDatatype then .ok []
  else
    .error (notMember path c (.literal l)
      ("literal " ++ (Term.literal l).display ++ " is not a " ++ c.shortName))

/-- Membership in a class and in all that it is told to be. -/
def checkClass (r : Reasoner) (unfold : ClassPath → Expression → Term → Work) (path : ClassPath)
    (c individual : Term) : Work := fun m =>
  match individual with
  | .literal l => (checkDatatype path c l, m)
  | _ =>
    match r.types individual with
    | .error e => (.error (path.queryFailure e individual), m)
    | .ok types =>
      let isMember := types.any fun t => t = c || r.subsumes (typeExpression t) (.concept c)
      let equivalents := r.equivalentClasses c
      -- without assertion, a definition may still be satisfied
      if !isMember && equivalents.isEmpty then
        (.error (notMember path c individual
          (individual.shortName ++ " is not a " ++ c.shortName)), m)
      else
        let membership := if isMember then [⟨individual, .iri Rdf.type, c⟩] else []
        let definitions := r.superClasses c ++ equivalents
        every (done (.ok membership) ::
          definitions.map fun definition => unfold (path.push c) definition individual) m

/-- At least one branch holds; the statements of all branches that hold count. -/
def checkUnion (path : ClassPath) (branches : List Work) (individual : Term) : Work := fun m =>
  let (verdicts, m) := each branches m
  let causes := failures verdicts
  if causes.length < branches.length then
    (.ok (verdicts.foldl (fun statements verdict =>
      match verdict with
      | .ok found => Distinct.union statements found
      | .error _ => statements) []), m)
  else
    (.error (path.failure (.unionExhausted causes) individual
      (individual.shortName ++ " satisfies none of " ++ decimalText branches.length ++
        " alternatives: " ++ "; ".intercalate (causes.map Failure.explanation))), m)

/-- The part does not hold. -/
def checkComplement (path : ClassPath) (work : Work) (part : Expression) (individual : Term) :
    Work := fun m =>
  match work m with
  | (.ok _, m) =>
    (.error (path.failure .complementViolation individual
      (individual.shortName ++ " belongs to " ++ part.display ++ ", which it must not")), m)
  | (.error _, m) => (.ok [], m)

/-! ## Expressions -/

mutual

/-- Translate against an expression, when `unfold` translates against definitions of classes. -/
def evaluate (r : Reasoner) (unfold : ClassPath → Expression → Term → Work) (path : ClassPath)
    (e : Expression) (individual : Term) : Work :=
  memoised e individual fun m =>
    match e with
    | .top => (.ok [], m)
    | .bottom =>
      (.error (path.failure .unsatisfiable individual
        (individual.shortName ++ " cannot belong to the empty class")), m)
    | .concept c => checkClass r unfold path c individual m
    | .conj parts => every ((evaluateEach r unfold path parts).map (· individual)) m
    | .disj branches =>
      checkUnion path ((evaluateEach r unfold path branches).map (· individual)) individual m
    | .compl part =>
      checkComplement path (evaluate r unfold path part individual) part individual m
    | .someOf p filler =>
      onValues r path p individual
        (checkSome path (evaluate r unfold path filler) p filler individual) m
    | .onlyOf p filler =>
      onValues r path p individual
        (checkOnly path (evaluate r unfold path filler) p filler individual) m
    | .atLeast p n =>
      onValues r path p individual (done <| checkCount path .minCardinality p n individual ·) m
    | .atMost p n =>
      onValues r path p individual (done <| checkCount path .maxCardinality p n individual ·) m
    | .exactly p n =>
      onValues r path p individual (done <| checkCount path .exactCardinality p n individual ·) m
    | .selfOf p => onValues r path p individual (done <| checkSelf path p individual ·) m
    | .valueOf _ _ => (.ok [], m)
    | .nominal _ => (.ok [], m)

/-- Translate against each expression of a list. -/
def evaluateEach (r : Reasoner) (unfold : ClassPath → Expression → Term → Work) (path : ClassPath) :
    List Expression → List (Term → Work)
  | [] => []
  | e :: rest => evaluate r unfold path e :: evaluateEach r unfold path rest

end

/-- Translate against an expression, with definitions at most so deep inside each other. -/
def translateWithin (r : Reasoner) : Nat → ClassPath → Expression → Term → Work
  | 0, path, e, individual, m => evaluate r (fun _ _ _ => done (.ok [])) path e individual m
  | depth + 1, path, e, individual, m =>
    evaluate r (translateWithin r depth) path e individual m

/-- Translate against an expression. Definitions inside each other belong to different pairs of a
class and an individual, so their depth is bounded by the number of such pairs. -/
def translate (r : Reasoner) : ClassPath → Expression → Term → Work :=
  translateWithin r r.definedPairs

end GraphConformance.Evidence
