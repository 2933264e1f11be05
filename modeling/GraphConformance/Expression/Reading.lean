import GraphConformance.Expression.Basic
import GraphConformance.Store.Lists

/-!
# Reading expressions from a store

An IRI is read as the class that it names and is never unfolded; a literal as a class of its own. A
blank node is read by the first form that it declares: a combination, an enumeration or a
restriction (`Store.form?`). A node without form, or one that is met again while it is being read,
is the class of that node. Reading ends on every store: each node on the path of blank nodes under
way has a triple of its own, so the triples that leave other nodes decrease.
-/

set_option autoImplicit false

namespace GraphConformance

open Vocabulary

/-- The form that a node declares, its parts still nodes. -/
inductive NodeForm where
  | intersection (parts : List Term)
  | union (parts : List Term)
  | complement (part : Term)
  | enumeration (individuals : List Term)
  | some (property filler : Term)
  | only (property filler : Term)
  | value (property value : Term)
  | selfRelated (property : Term)
  | exactly (property : Term) (bound : Nat)
  | atLeast (property : Term) (bound : Nat)
  | atMost (property : Term) (bound : Nat)
deriving Repr

namespace Store

/-- The bound that an object of a node gives, if the object is a literal that denotes one. -/
def bound? (s : Store) (node : Term) (predicate : Iri) : Option Nat :=
  match s.object? node predicate with
  | some (.literal l) => l.cardinality?
  | _ => none

/-- The bound of the first of two predicates that gives one. -/
def boundOf? (s : Store) (node : Term) (plain qualified : Iri) : Option Nat :=
  (s.bound? node plain).or (s.bound? node qualified)

/-- The restriction of a property that a node declares. -/
def restriction? (s : Store) (node property : Term) : Option NodeForm :=
  match s.object? node Owl.someValuesFrom with
  | some filler => some (.some property filler)
  | none =>
    match s.object? node Owl.allValuesFrom with
    | some filler => some (.only property filler)
    | none =>
      match s.object? node Owl.hasValue with
      | some value => some (.value property value)
      | none =>
        match s.object? node Owl.hasSelf with
        | some _ => some (.selfRelated property)
        | none =>
          ((s.boundOf? node Owl.cardinality Owl.qualifiedCardinality).map (.exactly property)).or
            (((s.boundOf? node Owl.minCardinality Owl.minQualifiedCardinality).map
                (.atLeast property)).or
              ((s.boundOf? node Owl.maxCardinality Owl.maxQualifiedCardinality).map
                (.atMost property)))

/-- The form that a node declares. -/
def form? (s : Store) (node : Term) : Option NodeForm :=
  match s.object? node Owl.intersectionOf with
  | some head => some (.intersection (s.listItems head))
  | none =>
    match s.object? node Owl.unionOf with
    | some head => some (.union (s.listItems head))
    | none =>
      match s.object? node Owl.complementOf with
      | some part => some (.complement part)
      | none =>
        match s.object? node Owl.oneOf with
        | some head => some (.enumeration (s.listItems head))
        | none =>
          match s.object? node Owl.onProperty with
          | some property => s.restriction? node property
          | none => none

theorem exists_edge_of_form? {s : Store} {x : Term} {f : NodeForm} (h : s.form? x = some f) :
    ∃ e, e ∈ s.outgoing x := by
  have key : ∀ {p o}, s.object? x p = some o → ∃ e, e ∈ s.outgoing x :=
    fun h => ⟨_, exists_edge_of_object? h⟩
  unfold form? at h
  split at h
  · rename_i ho; exact key ho
  · split at h
    · rename_i ho; exact key ho
    · split at h
      · rename_i ho; exact key ho
      · split at h
        · rename_i ho; exact key ho
        · split at h
          · rename_i ho; exact key ho
          · simp at h

/-- The expression of a node, read inside the given nodes. -/
def readExpression (s : Store) (inside : List Term) (node : Term) : Expression :=
  match node with
  | .iri i => .named i
  | .literal l => .concept (.literal l)
  | .blank b =>
    if hn : .blank b ∈ inside then .concept (.blank b)
    else
      match hf : s.form? (.blank b) with
      | none => .concept (.blank b)
      | some form =>
        have : s.remaining (.blank b :: inside) < s.remaining inside :=
          (exists_edge_of_form? hf).elim fun _ he => remaining_lt hn he
        let read := s.readExpression (.blank b :: inside)
        match form with
        | .intersection parts => .meet (parts.map read)
        | .union parts => .join (parts.map read)
        | .complement part => .compl (read part)
        | .enumeration individuals => .join (individuals.map .nominal)
        | .some p filler => .someOf p (read filler)
        | .only p filler => .onlyOf p (read filler)
        | .value p v => .valueOf p v
        | .selfRelated p => .selfOf p
        | .exactly p n => .exactly p n
        | .atLeast p n => .atLeast p n
        | .atMost p n => .atMost p n
termination_by s.remaining inside

/-- The expression that a term denotes. -/
def expression (s : Store) (node : Term) : Expression := s.readExpression [] node

end Store

end GraphConformance
