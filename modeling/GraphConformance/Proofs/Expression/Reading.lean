import GraphConformance.Evidence.Rules
import GraphConformance.Expression.Reading
import GraphConformance.Knowledge.Basic

/-!
# What a node is read as

`Store.readExpression` follows the form that a node declares. The equations here give its result for
each kind of node, with the form turned into an expression by `NodeForm.toExpression`. Where no
triple leaves a blank node, nodes are read as names, and so are classes by the reasoner
(`Knowledge.reasoner_eq_byName`).
-/

set_option autoImplicit false

namespace GraphConformance

open Vocabulary

/-- The expression of a form, its parts read by a function. -/
def NodeForm.toExpression (read : Term → Expression) : NodeForm → Expression
  | intersection parts => .meet (parts.map read)
  | union parts => .join (parts.map read)
  | complement part => .compl (read part)
  | enumeration individuals => .join (individuals.map .nominal)
  | some p filler => .someOf p (read filler)
  | only p filler => .onlyOf p (read filler)
  | value p v => .valueOf p v
  | selfRelated p => .selfOf p
  | exactly p n => .exactly p n
  | atLeast p n => .atLeast p n
  | atMost p n => .atMost p n

/-- The nodes of a form that are read in turn. -/
def NodeForm.parts : NodeForm → List Term
  | intersection parts => parts
  | union parts => parts
  | complement part => [part]
  | some _ filler => [filler]
  | only _ filler => [filler]
  | _ => []

theorem NodeForm.toExpression_congr {read read' : Term → Expression} {form : NodeForm}
    (h : ∀ x ∈ form.parts, read x = read' x) :
    form.toExpression read = form.toExpression read' := by
  cases form with
  | intersection parts => exact congrArg Expression.meet (List.map_congr_left h)
  | union parts => exact congrArg Expression.join (List.map_congr_left h)
  | complement part => exact congrArg Expression.compl (h part (List.mem_singleton_self _))
  | some p filler => exact congrArg (Expression.someOf p) (h filler (List.mem_singleton_self _))
  | only p filler => exact congrArg (Expression.onlyOf p) (h filler (List.mem_singleton_self _))
  | _ => rfl

namespace Store

variable {s : Store} {inside : List Term} {b : BlankNode}

/-- A list goes on where a cell has an item. -/
theorem listFrom_of_not_end {passed : List Term} {cell : Term}
    (hgo : ¬(cell = .iri Rdf.nil ∨ cell ∈ passed)) :
    s.listFrom passed cell = (s.object? cell Rdf.first).elim [] fun item =>
      item :: (s.object? cell Rdf.rest).elim [] (s.listFrom (cell :: passed)) := by
  rw [listFrom, dif_neg hgo]
  split
  · rename_i hfirst
    rw [hfirst, Option.elim_none]
  · rename_i item hfirst
    simp only [hfirst, Option.elim_some]
    cases s.object? cell Rdf.rest <;> rfl

@[simp]
theorem readExpression_iri (i : Iri) : s.readExpression inside (.iri i) = .named i := by
  rw [readExpression]

@[simp]
theorem readExpression_literal (l : Literal) :
    s.readExpression inside (.literal l) = .concept (.literal l) := by
  rw [readExpression]

/-- A node met again while it is being read is the class of the node. -/
theorem readExpression_of_mem (h : .blank b ∈ inside) :
    s.readExpression inside (.blank b) = .concept (.blank b) := by
  rw [readExpression, dif_pos h]

theorem readExpression_of_form?_eq_none (h : s.form? (.blank b) = none) :
    s.readExpression inside (.blank b) = .concept (.blank b) := by
  by_cases hb : .blank b ∈ inside
  · exact readExpression_of_mem hb
  rw [readExpression, dif_neg hb]
  split
  · rfl
  · rename_i form hf
    exact absurd (h.symm.trans hf) (by simp)

theorem readExpression_of_form? {form : NodeForm} (hb : .blank b ∉ inside)
    (h : s.form? (.blank b) = some form) :
    s.readExpression inside (.blank b) =
      form.toExpression (s.readExpression (.blank b :: inside)) := by
  rw [readExpression, dif_neg hb]
  split
  · rename_i hf
    exact absurd (h.symm.trans hf) (by simp)
  · rename_i form' hf
    obtain rfl : form' = form := Option.some.inj (hf.symm.trans h)
    cases form' <;> rfl

/-- A node that no triple leaves is the class of the node. -/
theorem expression_of_outgoing_eq_nil (h : s.outgoing (.blank b) = []) :
    s.expression (.blank b) = .concept (.blank b) := by
  have ho : ∀ p, s.object? (.blank b) p = none := by
    intro p
    rw [object?, h]
    rfl
  apply readExpression_of_form?_eq_none
  simp [form?, ho]

/-- Without triples that leave blank nodes, each node is read as a name. -/
theorem expression_eq_typeExpression (h : ∀ t ∈ s.triples, ∀ b, t.subject ≠ .blank b) :
    s.expression = Evidence.typeExpression := by
  funext node
  cases node with
  | iri i => rw [expression, readExpression_iri, Evidence.typeExpression]
  | literal l =>
    rw [expression, readExpression_literal]
    rfl
  | blank b =>
    apply expression_of_outgoing_eq_nil
    rw [outgoing_eq_edgesFrom, List.eq_nil_iff_forall_not_mem]
    intro e he
    exact h _ (mem_edgesFrom.mp he) b rfl

end Store

/-! ## Reasoners that read classes by name -/

namespace Knowledge

/-- The reasoner of a store that says nothing of blank nodes, with classes read by name. -/
def byName (k : Knowledge) : Reasoner :=
  { k.reasoner with
    superClasses := fun c => (k.store.objects c Rdfs.subClassOf).map Evidence.typeExpression
    equivalentClasses := fun c =>
      Distinct.dedup ((k.store.objects c Owl.equivalentClass ++
        k.store.subjects Owl.equivalentClass c).map Evidence.typeExpression) }

theorem reasoner_eq_byName {k : Knowledge}
    (h : ∀ t ∈ k.store.triples, t.subject.isAnonymous = false) : k.reasoner = k.byName := by
  have hexpression : k.store.expression = Evidence.typeExpression := by
    apply Store.expression_eq_typeExpression
    intro t ht b hb
    have hnamed := h t ht
    rw [hb] at hnamed
    exact absurd hnamed (by simp [Term.isAnonymous])
  rw [byName, ← hexpression]
  rfl

end Knowledge

end GraphConformance
