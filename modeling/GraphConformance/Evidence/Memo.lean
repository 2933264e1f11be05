import GraphConformance.Expression.Basic
import GraphConformance.Failure
import GraphConformance.Table

/-!
# Memory of verdicts

A `Memo` keeps the verdict for each pair of an expression and an individual that was translated, and
marks the pairs that are being translated. It counts how often a pair was found (`hits`), how often
it was new (`misses`), and how often it was found while it was being translated (`cycles`).
-/

set_option autoImplicit false

namespace GraphConformance.Evidence

/-- The statements that witness a membership, or why there is none. -/
abbrev Verdict := Except Failure (List Triple)

/-- What is known about a pair. -/
inductive Entry where
  | inProgress
  | finished (verdict : Verdict)

def Entry.isInProgress : Entry → Bool
  | inProgress => true
  | finished _ => false

/-- What is known about the pairs met so far. -/
structure Memo where
  entries : Table (Expression × Term) Entry
  hits : Nat
  misses : Nat
  cycles : Nat

namespace Memo

/-- The memory of nothing. -/
def empty : Memo := ⟨∅, 0, 0, 0⟩

/-- What is known about a pair; the question is counted. -/
def find (m : Memo) (e : Expression) (individual : Term) : Option Entry × Memo :=
  match m.entries.get? (e, individual) with
  | some entry =>
    (some entry,
      { m with
        hits := m.hits + 1
        cycles := m.cycles + if entry.isInProgress then 1 else 0 })
  | none => (none, { m with misses := m.misses + 1 })

/-- Mark a pair as being translated. -/
def mark (m : Memo) (e : Expression) (individual : Term) : Memo :=
  { m with entries := m.entries.insert (e, individual) .inProgress }

/-- Keep the verdict for a pair. -/
def finish (m : Memo) (e : Expression) (individual : Term) (verdict : Verdict) : Memo :=
  { m with entries := m.entries.insert (e, individual) (.finished verdict) }

def size (m : Memo) : Nat := m.entries.size

end Memo

/-- Something to find out with a memory at hand. -/
abbrev Work := Memo → Verdict × Memo

/-- Use what is known about a pair, or find it out and keep it. A pair that is being translated
counts as a success without statements. -/
def memoised (e : Expression) (individual : Term) (work : Work) : Work := fun m =>
  match m.find e individual with
  | (some .inProgress, m) => (.ok [], m)
  | (some (.finished verdict), m) => (verdict, m)
  | (none, m) =>
    let (verdict, m) := work (m.mark e individual)
    (verdict, m.finish e individual verdict)

/-- Succeed or fail without work. -/
def done (verdict : Verdict) : Work := fun m => (verdict, m)

/-- The union of what each piece of work finds; the first failure ends it. -/
def every : List Work → Work
  | [], m => (.ok [], m)
  | work :: rest, m =>
    match work m with
    | (.error failure, m) => (.error failure, m)
    | (.ok found, m) =>
      match every rest m with
      | (.error failure, m) => (.error failure, m)
      | (.ok more, m) => (.ok (Distinct.union found more), m)

/-- The verdicts of all pieces of work. -/
def each : List Work → Memo → List Verdict × Memo
  | [], m => ([], m)
  | work :: rest, m =>
    let (verdict, m) := work m
    let (verdicts, m) := each rest m
    (verdict :: verdicts, m)

/-- The failures among verdicts, in order. -/
def failures (verdicts : List Verdict) : List Failure :=
  verdicts.filterMap fun verdict =>
    match verdict with
    | .error failure => some failure
    | .ok _ => none

end GraphConformance.Evidence
