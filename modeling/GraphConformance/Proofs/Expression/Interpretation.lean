import GraphConformance.Expression.Reading
import Mathlib.Data.Set.Card

/-!
# Interpretations

An `Interpretation` gives each term a set of elements as a class, a relation between elements as a
property, and an element as an individual. `Expression.meaning` reads an expression set by set:
combinations as the set operations, restrictions by the successors of an element, bounds by the
number of distinct successors.

`Interpretation.Models` says that an interpretation agrees with a store: each node has the extension
of the expression that it is read as, and the told hierarchy, disjointness and types hold.
`Interpretation.SatisfiesTold` asks less: only what is told of classes, with the empty class empty.
-/

set_option autoImplicit false

namespace GraphConformance

open Vocabulary

universe u

/-- What terms stand for, as classes, as properties and as individuals. -/
structure Interpretation (Δ : Type u) where
  extension : Term → Set Δ
  relation : Term → Δ → Δ → Prop
  element : Term → Δ

variable {Δ : Type u}

namespace Interpretation

/-- What an element is related to by a property. -/
def successors (I : Interpretation Δ) (property : Term) (x : Δ) : Set Δ :=
  {y | I.relation property x y}

@[simp]
theorem mem_successors {I : Interpretation Δ} {p : Term} {x y : Δ} :
    y ∈ I.successors p x ↔ I.relation p x y := Iff.rfl

end Interpretation

namespace Expression

mutual

/-- The set of elements that an expression describes. -/
def meaning (I : Interpretation Δ) : Expression → Set Δ
  | top => Set.univ
  | bottom => ∅
  | concept node => I.extension node
  | conj parts => meaningAll I parts
  | disj parts => meaningAny I parts
  | compl part => (meaning I part)ᶜ
  | someOf p filler => {x | ∃ y ∈ I.successors p x, y ∈ meaning I filler}
  | onlyOf p filler => {x | ∀ y ∈ I.successors p x, y ∈ meaning I filler}
  | atLeast p n => {x | n ≤ (I.successors p x).encard}
  | atMost p n => {x | (I.successors p x).encard ≤ n}
  | exactly p n => {x | (I.successors p x).encard = n}
  | selfOf p => {x | x ∈ I.successors p x}
  | valueOf p v => {x | I.element v ∈ I.successors p x}
  | nominal a => {I.element a}

/-- What all expressions of a list describe. -/
def meaningAll (I : Interpretation Δ) : List Expression → Set Δ
  | [] => Set.univ
  | part :: rest => meaning I part ∩ meaningAll I rest

/-- What some expression of a list describes. -/
def meaningAny (I : Interpretation Δ) : List Expression → Set Δ
  | [] => ∅
  | part :: rest => meaning I part ∪ meaningAny I rest

end

variable {I : Interpretation Δ}

theorem mem_meaningAll {parts : List Expression} {x : Δ} :
    x ∈ meaningAll I parts ↔ ∀ e ∈ parts, x ∈ e.meaning I := by
  induction parts with
  | nil => simp [meaningAll]
  | cons e rest ih => simp [meaningAll, ih]

theorem mem_meaningAny {parts : List Expression} {x : Δ} :
    x ∈ meaningAny I parts ↔ ∃ e ∈ parts, x ∈ e.meaning I := by
  induction parts with
  | nil => simp [meaningAny]
  | cons e rest ih => simp [meaningAny, ih]

@[simp]
theorem mem_meaning_conj {parts : List Expression} {x : Δ} :
    x ∈ (conj parts).meaning I ↔ ∀ e ∈ parts, x ∈ e.meaning I := by
  rw [meaning, mem_meaningAll]

@[simp]
theorem mem_meaning_disj {parts : List Expression} {x : Δ} :
    x ∈ (disj parts).meaning I ↔ ∃ e ∈ parts, x ∈ e.meaning I := by
  rw [meaning, mem_meaningAny]

theorem meaning_of_isTop {e : Expression} (h : e.isTop = true) : e.meaning I = Set.univ := by
  cases e <;> simp [isTop] at h
  rw [meaning]

end Expression

namespace Interpretation

/-- The interpretation agrees with a store. The node of everything and the node of nothing are read
as the expressions for them, which fixes their extensions. -/
structure Models (I : Interpretation Δ) (s : Store) : Prop where
  /-- Each node has the extension of the expression that it is read as. -/
  reading : ∀ node, I.extension node = (s.expression node).meaning I
  subClassOf : ∀ c d, ⟨c, .iri Rdfs.subClassOf, d⟩ ∈ s.triples → I.extension c ⊆ I.extension d
  equivalentClass : ∀ c d, ⟨c, .iri Owl.equivalentClass, d⟩ ∈ s.triples →
    I.extension c = I.extension d
  disjointWith : ∀ c d, ⟨c, .iri Owl.disjointWith, d⟩ ∈ s.triples →
    I.extension c ∩ I.extension d = ∅
  subPropertyOf : ∀ p q, ⟨p, .iri Rdfs.subPropertyOf, q⟩ ∈ s.triples →
    ∀ x, I.successors p x ⊆ I.successors q x
  equivalentProperty : ∀ p q, ⟨p, .iri Owl.equivalentProperty, q⟩ ∈ s.triples →
    ∀ x, I.successors p x = I.successors q x
  type : ∀ a c, ⟨a, .iri Rdf.type, c⟩ ∈ s.triples → I.element a ∈ I.extension c

/-- The interpretation agrees with what a store tells of classes and of their elements, and the
empty class is empty. How nodes are read does not matter. -/
structure SatisfiesTold (I : Interpretation Δ) (s : Store) : Prop where
  subClassOf : ∀ c d, ⟨c, .iri Rdfs.subClassOf, d⟩ ∈ s.triples → I.extension c ⊆ I.extension d
  equivalentClass : ∀ c d, ⟨c, .iri Owl.equivalentClass, d⟩ ∈ s.triples →
    I.extension c = I.extension d
  disjointWith : ∀ c d, ⟨c, .iri Owl.disjointWith, d⟩ ∈ s.triples →
    I.extension c ∩ I.extension d = ∅
  type : ∀ a c, ⟨a, .iri Rdf.type, c⟩ ∈ s.triples → I.element a ∈ I.extension c
  nothing : I.extension (.iri Owl.nothing) = ∅

namespace Models

variable {I : Interpretation Δ} {s : Store}

theorem extension_iri (h : I.Models s) (i : Iri) :
    I.extension (.iri i) = (Expression.named i).meaning I := by
  rw [h.reading, Store.expression, Store.readExpression]

theorem extension_nothing (h : I.Models s) : I.extension (.iri Owl.nothing) = ∅ := by
  have hne : Owl.nothing ≠ Owl.thing := by decide
  rw [h.extension_iri, Expression.named, if_neg hne, if_pos rfl, Expression.meaning]

theorem satisfiesTold (h : I.Models s) : I.SatisfiesTold s :=
  ⟨h.subClassOf, h.equivalentClass, h.disjointWith, h.type, h.extension_nothing⟩

end Models

end Interpretation

end GraphConformance
