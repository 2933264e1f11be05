import GraphConformance.Proofs.Expression.Reading
import GraphConformance.Proofs.Renaming.Terms
import Mathlib.Data.List.Nodup

/-!
# Renamed stores

A store that lists the renamed triples of another one, in their order, answers every question about
a renamed term with the renamed answer. Questions about edges look at terms through equality alone;
lists and expressions follow edges and pass the same nodes, so that the argument goes along their
own recursion (`Renamed.listFrom`, `Renamed.readExpression`).
-/

set_option autoImplicit false

namespace GraphConformance

open Vocabulary

/-- The edge with other nodes in place of its blank nodes. -/
def Edge.rename (f : BlankNode → BlankNode) (e : Edge) : Edge := (e.1.rename f, e.2.rename f)

/-- The form with other nodes in place of its blank nodes. -/
def NodeForm.rename (f : BlankNode → BlankNode) : NodeForm → NodeForm
  | .intersection parts => .intersection (parts.map (Term.rename f))
  | .union parts => .union (parts.map (Term.rename f))
  | .complement part => .complement (part.rename f)
  | .enumeration individuals => .enumeration (individuals.map (Term.rename f))
  | .some p filler => .some (p.rename f) (filler.rename f)
  | .only p filler => .only (p.rename f) (filler.rename f)
  | .value p v => .value (p.rename f) (v.rename f)
  | .selfRelated p => .selfRelated (p.rename f)
  | .exactly p n => .exactly (p.rename f) n
  | .atLeast p n => .atLeast (p.rename f) n
  | .atMost p n => .atMost (p.rename f) n

theorem Expression.meet_rename (ρ : BlankNode ↪ BlankNode) (parts : List Expression) :
    meet (parts.map (rename ρ)) = (meet parts).rename ρ := by
  have hfilter : (parts.map (rename ρ)).filter (!·.isTop) =
      (parts.filter (!·.isTop)).map (rename ρ) := by
    rw [List.filter_map]
    simp only [Function.comp_def, isTop_rename]
  rw [meet, meet, hfilter, Distinct.dedup_map (rename_injective ρ)]
  cases Distinct.dedup (parts.filter (!·.isTop)) with
  | nil => rfl
  | cons part rest =>
    cases rest with
    | nil => rfl
    | cons next rest => exact (rename_conj ρ (part :: next :: rest)).symm

theorem Expression.join_rename (ρ : BlankNode ↪ BlankNode) (parts : List Expression) :
    join (parts.map (rename ρ)) = (join parts).rename ρ := by
  rw [join, join, Distinct.dedup_map (rename_injective ρ)]
  cases Distinct.dedup parts with
  | nil => rfl
  | cons part rest =>
    cases rest with
    | nil => rfl
    | cons next rest => exact (rename_disj ρ (part :: next :: rest)).symm

/-- Renaming a form renames its expression, when its parts are read as renamed. -/
theorem NodeForm.toExpression_rename {ρ : BlankNode ↪ BlankNode} {read read' : Term → Expression}
    (hread : ∀ x, read' (x.rename ρ) = (read x).rename ρ) (form : NodeForm) :
    (form.rename ρ).toExpression read' = (form.toExpression read).rename ρ := by
  have hmap : ∀ parts : List Term,
      (parts.map (Term.rename ρ)).map read' = (parts.map read).map (Expression.rename ρ) := by
    intro parts
    rw [List.map_map, List.map_map]
    exact List.map_congr_left fun x _ => hread x
  cases form with
  | intersection parts => rw [rename, toExpression, hmap, Expression.meet_rename]; rfl
  | union parts => rw [rename, toExpression, hmap, Expression.join_rename]; rfl
  | complement part => exact congrArg Expression.compl (hread part)
  | enumeration individuals =>
    rw [rename, toExpression, List.map_map, toExpression, ← Expression.join_rename, List.map_map]
    rfl
  | some p filler => exact congrArg (Expression.someOf (p.rename ρ)) (hread filler)
  | only p filler => exact congrArg (Expression.onlyOf (p.rename ρ)) (hread filler)
  | value p v => rfl
  | selfRelated p => rfl
  | exactly p n => rfl
  | atLeast p n => rfl
  | atMost p n => rfl

namespace Store

/-- The second store lists the renamed triples of the first, in the same order. -/
def Renamed (f : BlankNode → BlankNode) (s s' : Store) : Prop :=
  s'.triples = s.triples.map (Triple.rename f)

/-- The store of the renamed triples. -/
def rename (f : BlankNode → BlankNode) (s : Store) : Store :=
  .ofList (s.triples.map (Triple.rename f))

variable {ρ : BlankNode ↪ BlankNode} {s s' : Store}

theorem renamed_rename (ρ : BlankNode ↪ BlankNode) (s : Store) : s.Renamed ρ (s.rename ρ) := by
  have hnodup : (s.triples.map (Triple.rename ρ)).Nodup := s.nodup.map (Triple.rename_injective ρ)
  rw [Renamed, rename, ofList, triples_insertAll, triples_empty]
  exact Distinct.dedup_eq_self hnodup

theorem renamed_empty (f : BlankNode → BlankNode) : empty.Renamed f empty := rfl

namespace Renamed

theorem insert (h : s.Renamed ρ s') (t : Triple) :
    (s.insert t).Renamed ρ (s'.insert (t.rename ρ)) := by
  rw [Renamed, triples_insert, triples_insert, h,
    Distinct.insertLast_map (Triple.rename_injective ρ)]

theorem insertAll (h : s.Renamed ρ s') (ts : List Triple) :
    (s.insertAll ts).Renamed ρ (s'.insertAll (ts.map (Triple.rename ρ))) := by
  rw [Renamed, triples_insertAll, triples_insertAll, h,
    Distinct.union_map (Triple.rename_injective ρ)]

theorem merge {r r' : Store} (h : s.Renamed ρ s') (hr : r.Renamed ρ r') :
    (s.merge r).Renamed ρ (s'.merge r') := by
  have := h.insertAll r.triples
  rwa [← hr] at this

variable (h : s.Renamed ρ s')

include h

/-! ## Edges -/

theorem size_eq : s'.size = s.size := by
  rw [size, h, List.length_map, size]

theorem outgoing (x : Term) : s'.outgoing (x.rename ρ) = (s.outgoing x).map (Edge.rename ρ) := by
  have hfilter : (fun t : Triple => decide ((t.rename ρ).subject = x.rename ρ)) =
      fun t => decide (t.subject = x) := by
    funext t
    exact decide_eq_decide.mpr Term.rename_inj
  rw [outgoing_eq_edgesFrom, outgoing_eq_edgesFrom, edgesFrom, edgesFrom, h, List.filter_map,
    List.map_map, List.map_map]
  rw [show ((fun t : Triple => decide (t.subject = x.rename ρ)) ∘ Triple.rename ρ) =
    fun t => decide (t.subject = x) from hfilter]
  rfl

theorem objects (x : Term) (p : Iri) :
    s'.objects (x.rename ρ) p = (s.objects x p).map (Term.rename ρ) := by
  rw [Store.objects, h.outgoing, List.filter_map, List.map_map, Store.objects, List.map_map]
  simp only [Function.comp_def, Edge.rename, Term.rename_eq_iri]

theorem object? (x : Term) (p : Iri) :
    s'.object? (x.rename ρ) p = (s.object? x p).map (Term.rename ρ) := by
  rw [Store.object?, h.outgoing, List.find?_map, Store.object?, Option.map_map, Option.map_map]
  simp only [Function.comp_def, Edge.rename, Term.rename_eq_iri]

theorem subjects (p : Iri) (x : Term) :
    s'.subjects p (x.rename ρ) = (s.subjects p x).map (Term.rename ρ) := by
  rw [Store.subjects, h, List.filter_map, List.map_map, Store.subjects, List.map_map]
  simp only [Function.comp_def, Triple.rename, Term.rename_eq_iri, Term.rename_inj]

theorem types (x : Term) : s'.types (x.rename ρ) = (s.types x).map (Term.rename ρ) :=
  h.objects x Rdf.type

theorem mentions (x : Term) : s'.mentions (x.rename ρ) = s.mentions x := by
  -- subjects are looked up in the index, everything else in the triples
  have hindex : s'.index.contains (x.rename ρ) = s.index.contains x := by
    rw [Table.contains, Table.contains, s'.index_get?, s.index_get?, ← outgoing_eq_edgesFrom,
      ← outgoing_eq_edgesFrom, h.outgoing]
    cases s.outgoing x <;> rfl
  rw [Store.mentions, Store.mentions, hindex, h, List.any_map]
  simp only [Function.comp_def, Triple.rename, Term.rename_inj]

/-! ## Lists -/

theorem listFrom (passed : List Term) (cell : Term) :
    s'.listFrom (passed.map (Term.rename ρ)) (cell.rename ρ) =
      (s.listFrom passed cell).map (Term.rename ρ) := by
  have hend : ∀ {passed : List Term} {cell : Term},
      (cell.rename ρ = .iri Rdf.nil ∨ cell.rename ρ ∈ passed.map (Term.rename ρ)) ↔
        cell = .iri Rdf.nil ∨ cell ∈ passed := by
    intro passed cell
    rw [Term.rename_eq_iri, List.mem_map_of_injective (Term.rename_injective ρ)]
  fun_induction s.listFrom passed cell with
  | case1 passed cell hstop => rw [Store.listFrom, dif_pos (hend.mpr hstop), List.map_nil]
  | case2 passed cell hgo hfirst =>
    rw [listFrom_of_not_end (mt hend.mp hgo), h.object?, hfirst]
    rfl
  | case3 passed cell hgo item hfirst hrest =>
    rw [listFrom_of_not_end (mt hend.mp hgo), h.object?, h.object?, hfirst, hrest]
    rfl
  | case4 passed cell hgo item hfirst next hrest _ ih =>
    rw [listFrom_of_not_end (mt hend.mp hgo), h.object?, h.object?, hfirst, hrest, List.map_cons,
      ← ih]
    rfl

theorem listItems (head : Term) :
    s'.listItems (head.rename ρ) = (s.listItems head).map (Term.rename ρ) :=
  h.listFrom [] head

/-! ## Expressions -/

theorem bound? (x : Term) (p : Iri) : s'.bound? (x.rename ρ) p = s.bound? x p := by
  rw [Store.bound?, h.object?, Store.bound?]
  cases s.object? x p with
  | none => rfl
  | some o => cases o <;> rfl

theorem boundOf? (x : Term) (p q : Iri) : s'.boundOf? (x.rename ρ) p q = s.boundOf? x p q := by
  rw [Store.boundOf?, h.bound?, h.bound?, Store.boundOf?]

theorem restriction? (x property : Term) :
    s'.restriction? (x.rename ρ) (property.rename ρ) =
      (s.restriction? x property).map (NodeForm.rename ρ) := by
  simp only [Store.restriction?, h.object?, h.boundOf?]
  cases s.object? x Owl.someValuesFrom with
  | some filler => rfl
  | none =>
    cases s.object? x Owl.allValuesFrom with
    | some filler => rfl
    | none =>
      -- without a filler, a value, a flag or a bound decides
      cases s.object? x Owl.hasValue with
      | some value => rfl
      | none =>
        cases s.object? x Owl.hasSelf with
        | some flag => rfl
        | none =>
          simp only [Option.map_none, Option.map_or, Option.map_map]
          rfl

theorem form? (x : Term) : s'.form? (x.rename ρ) = (s.form? x).map (NodeForm.rename ρ) := by
  simp only [Store.form?, h.object?]
  cases s.object? x Owl.intersectionOf with
  | some head => exact congrArg (fun items => some (NodeForm.intersection items)) (h.listItems head)
  | none =>
    cases s.object? x Owl.unionOf with
    | some head => exact congrArg (fun items => some (NodeForm.union items)) (h.listItems head)
    | none =>
      cases s.object? x Owl.complementOf with
      | some part => rfl
      | none =>
        cases s.object? x Owl.oneOf with
        | some head =>
          exact congrArg (fun items => some (NodeForm.enumeration items)) (h.listItems head)
        | none =>
          cases s.object? x Owl.onProperty with
          | some property => exact h.restriction? x property
          | none => rfl

theorem readExpression (inside : List Term) (x : Term) :
    s'.readExpression (inside.map (Term.rename ρ)) (x.rename ρ) =
      (s.readExpression inside x).rename ρ := by
  -- on what the reading is not inside of yet: the parts of a node are read with that node inside
  induction hn : s.remaining inside using Nat.strongRecOn generalizing inside x with
  | ind n ih =>
    subst hn
    cases x with
    | iri i => rw [Term.rename_iri, readExpression_iri, readExpression_iri, Expression.rename_named]
    | literal l => rw [Term.rename_literal, readExpression_literal, readExpression_literal]; rfl
    | blank b =>
      by_cases hb : .blank b ∈ inside
      · rw [Term.rename_blank, readExpression_of_mem hb, readExpression_of_mem
          (List.mem_map_of_mem (f := Term.rename ρ) hb)]
        rfl
      · have hb' : Term.blank (ρ b) ∉ inside.map (Term.rename ρ) := by
          rw [← Term.rename_blank, List.mem_map_of_injective (Term.rename_injective ρ)]
          exact hb
        have hform' := h.form? (.blank b)
        cases hform : s.form? (.blank b) with
        | none =>
          rw [hform] at hform'
          rw [Term.rename_blank, readExpression_of_form?_eq_none hform,
            readExpression_of_form?_eq_none hform']
          rfl
        | some form =>
          rw [hform] at hform'
          obtain ⟨e, he⟩ := exists_edge_of_form? hform
          rw [Term.rename_blank, readExpression_of_form? hb hform,
            readExpression_of_form? hb' hform', NodeForm.toExpression_rename]
          exact fun y => ih _ (remaining_lt hb he) _ y rfl

theorem expression (x : Term) : s'.expression (x.rename ρ) = (s.expression x).rename ρ :=
  h.readExpression [] x

end Renamed

end Store

end GraphConformance
