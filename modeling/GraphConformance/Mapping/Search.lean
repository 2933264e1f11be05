import GraphConformance.Distinct
import GraphConformance.Mapping.Basic

/-!
# Search for a mapping

A mapping gives every template individual an instance individual of its own that is accepted for it.
The search assigns the template individuals in order, tries the instance individuals in order, and
goes back where no candidate is left; the first complete assignment counts (`assign`). Each instance
individual that is left over is then paired with the first template individual it is accepted for,
or with none; that cannot fail.

Acceptance is asked at most once for each pair: an `Inquiry` keeps the answers, and the list of what
was asked.
-/

set_option autoImplicit false

namespace GraphConformance

/-- The answers known so far, and the questions asked for them in order. -/
structure Inquiry where
  answers : Table (Term × Term) Bool
  asked : List (Term × Term)

namespace Inquiry

/-- No question asked. -/
def start : Inquiry := ⟨∅, []⟩

/-- The answer for a pair, asked only if it is not known. -/
def ask (q : Inquiry) (accepts : Term → Term → Bool) (individual template : Term) :
    Bool × Inquiry :=
  match q.answers.get? (individual, template) with
  | some answer => (answer, q)
  | none =>
    let answer := accepts individual template
    (answer,
      ⟨q.answers.insert (individual, template) answer, q.asked ++ [(individual, template)]⟩)

end Inquiry

namespace Mapping

/-- An assignment of instance individuals to template individuals, if there is one. -/
abbrev Assignment := Option (List (Term × Term)) × Inquiry

/-- Try candidates in order for a template individual; `next` assigns the other ones from what is
left, which are the candidates before and after the chosen one. -/
def assignFirst (accepts : Term → Term → Bool) (next : List Term → Inquiry → Assignment)
    (template : Term) : List Term → List Term → Inquiry → Assignment
  | _, [], q => (none, q)
  | before, individual :: after, q =>
    match q.ask accepts individual template with
    | (false, q) => assignFirst accepts next template (before ++ [individual]) after q
    | (true, q) =>
      match next (before ++ after) q with
      | (some pairs, q) => (some ((individual, template) :: pairs), q)
      | (none, q) => assignFirst accepts next template (before ++ [individual]) after q

/-- Assign to each template individual its own accepted instance individual. -/
def assign (accepts : Term → Term → Bool) : List Term → List Term → Inquiry → Assignment
  | [], _, q => (some [], q)
  | template :: rest, individuals, q =>
    -- too few individuals are left, so no question is asked
    if individuals.length < rest.length + 1 then (none, q)
    else assignFirst accepts (assign accepts rest) template [] individuals q

/-- The first template individual that an instance individual is accepted for. -/
def partner (accepts : Term → Term → Bool) (individual : Term) :
    List Term → Inquiry → Option Term × Inquiry
  | [], q => (none, q)
  | template :: rest, q =>
    match q.ask accepts individual template with
    | (true, q) => (some template, q)
    | (false, q) => partner accepts individual rest q

/-- The mapping of an assignment: those not assigned are paired with the first that accepts them. -/
def complete (accepts : Term → Term → Bool) (assigned : List (Term × Term))
    (templates : List Term) : List Term → Mapping → Inquiry → Mapping × Inquiry
  | [], m, q => (m, q)
  | individual :: rest, m, q =>
    match assigned.lookup individual with
    | some template =>
      complete accepts assigned templates rest (m.insert individual (.required template)) q
    | none =>
      let (template, q) := partner accepts individual templates q
      complete accepts assigned templates rest (m.insert individual (.optional template)) q

/-- Search for a mapping, and tell what was asked. -/
def search (accepts : Term → Term → Bool) (individuals templates : List Term) :
    Option Mapping × Inquiry :=
  let individuals := Distinct.dedup individuals
  let templates := Distinct.dedup templates
  match assign accepts templates individuals .start with
  | (none, q) => (none, q)
  | (some assigned, q) =>
    let (m, q) := complete accepts assigned templates individuals ∅ q
    (some m, q)

/-- The mapping of instance individuals to template individuals, if there is one. -/
def find? (accepts : Term → Term → Bool) (individuals templates : List Term) : Option Mapping :=
  (search accepts individuals templates).1

end Mapping

end GraphConformance
