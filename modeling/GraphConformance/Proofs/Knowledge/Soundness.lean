import GraphConformance.Proofs.Expression.Reading
import GraphConformance.Proofs.Knowledge.Closure
import GraphConformance.Proofs.Knowledge.Derivation
import GraphConformance.Knowledge.Basic

/-!
# Soundness of subsumption

Whatever the rules of subsumption derive holds in every interpretation that models the store: each
rule keeps containment (`meaning_subset_of_rule`), so a round does when the answers that it asks for
are true (`Sound.step`), and with it every number of nested rounds (`meaning_subset_of_entails`).
Refusing pairs that are being decided, and stopping at the bound, only takes answers away.
-/

set_option autoImplicit false

namespace GraphConformance

open Vocabulary

universe u

variable {Δ : Type u} {I : Interpretation Δ} {s : Store}

/-- An answering function that accepts only what holds in an interpretation. -/
def Sound (I : Interpretation Δ) (ask : Expression → Expression → Bool) : Prop :=
  ∀ sub sup, ask sub sup = true → sub.meaning I ⊆ sup.meaning I

/-! ## Bounds -/

theorem nonempty_successors_of_le {p : Term} {n : Nat} {x : Δ} (hn : 1 ≤ n)
    (h : (n : ℕ∞) ≤ (I.successors p x).encard) : (I.successors p x).Nonempty := by
  rw [← Set.one_le_encard_iff_nonempty]
  exact le_trans (by exact_mod_cast hn) h

theorem Interpretation.Models.mem_someOf (h : I.Models s) {p q : Term} {filler : Expression}
    {x : Δ} (hq : s.isSubProperty q p = true) (htop : filler.isTop = true)
    (hx : (I.successors q x).Nonempty) : x ∈ (Expression.someOf p filler).meaning I := by
  obtain ⟨y, hy⟩ := hx
  refine ⟨y, h.successors_subset_of_isSubProperty hq x hy, ?_⟩
  rw [Expression.meaning_of_isTop htop]
  exact Set.mem_univ y

theorem Interpretation.Models.le_encard (h : I.Models s) {p q : Term} {m n : Nat} {x : Δ}
    (hq : s.isSubProperty q p = true) (hnm : n ≤ m) (hm : (m : ℕ∞) ≤ (I.successors q x).encard) :
    (n : ℕ∞) ≤ (I.successors p x).encard :=
  calc (n : ℕ∞) ≤ m := by exact_mod_cast hnm
    _ ≤ (I.successors q x).encard := hm
    _ ≤ (I.successors p x).encard :=
      Set.encard_le_encard (h.successors_subset_of_isSubProperty hq x)

theorem Interpretation.Models.encard_le (h : I.Models s) {p q : Term} {m n : Nat} {x : Δ}
    (hp : s.isSubProperty p q = true) (hmn : m ≤ n) (hm : (I.successors q x).encard ≤ m) :
    (I.successors p x).encard ≤ n :=
  calc (I.successors p x).encard ≤ (I.successors q x).encard :=
        Set.encard_le_encard (h.successors_subset_of_isSubProperty hp x)
    _ ≤ m := hm
    _ ≤ n := by exact_mod_cast hmn

/-! ## Rules -/

/-- A rule keeps containment: it decides rightly when all that it asks for holds. -/
theorem meaning_subset_of_rule (hI : I.Models s) {premises : List (Expression × Expression)}
    {sub sup : Expression} (hrule : s.Rule premises sub sup)
    (hpremises : ∀ q ∈ premises, q.1.meaning I ⊆ q.2.meaning I) :
    sub.meaning I ⊆ sup.meaning I := by
  intro x hx
  cases hrule with
  | leftUnion =>
    obtain ⟨e, he, hxe⟩ := Expression.mem_meaning_disj.mp hx
    exact List.forall_mem_map.mp hpremises e he hxe
  | rightIntersection =>
    refine Expression.mem_meaning_conj.mpr ?_
    intro e he
    exact List.forall_mem_map.mp hpremises e he hx
  | rightUnion _ he =>
    exact Expression.mem_meaning_disj.mpr ⟨_, he, hpremises _ List.mem_cons_self hx⟩
  -- a class, by the told hierarchy or by a definition
  | hierarchy h => exact hI.extension_subset_of_mem_toldSupers h hx
  | definition _ he =>
    rw [Expression.meaning, ← hI.meaning_of_mem_equivalentClasses he]
    exact hpremises _ List.mem_cons_self hx
  -- some value, from some value, from a lower bound and from a given value
  | someOf_someOf h =>
    obtain ⟨y, hy, hother⟩ := hx
    exact ⟨y, hI.successors_subset_of_isSubProperty h x hy, hpremises _ List.mem_cons_self hother⟩
  | someOf_atLeast hn htop h => exact hI.mem_someOf h htop (nonempty_successors_of_le hn hx)
  | someOf_exactly hn htop h =>
    exact hI.mem_someOf h htop (nonempty_successors_of_le hn (le_of_eq (Eq.symm hx)))
  | @someOf_valueOf _ _ v _ h =>
    have hv : I.element v ∈ (Expression.nominal v).meaning I := by
      rw [Expression.meaning]
      exact Set.mem_singleton _
    exact ⟨I.element v, hI.successors_subset_of_isSubProperty h x hx,
      hpremises _ List.mem_cons_self hv⟩
  -- all values: the property of the right side is the smaller one
  | onlyOf_onlyOf h =>
    intro y hy
    exact hpremises _ List.mem_cons_self (hx y (hI.successors_subset_of_isSubProperty h x hy))
  -- lower bounds
  | atLeast_zero => simp [Expression.meaning]
  | atLeast_atLeast hn h => exact hI.le_encard h hn hx
  | atLeast_exactly hn h => exact hI.le_encard h hn (le_of_eq (Eq.symm hx))
  | atLeast_someOf h =>
    obtain ⟨y, hy, -⟩ := hx
    exact Set.one_le_encard_iff_nonempty.mpr ⟨y, hI.successors_subset_of_isSubProperty h x hy⟩
  | atLeast_valueOf h =>
    exact Set.one_le_encard_iff_nonempty.mpr ⟨_, hI.successors_subset_of_isSubProperty h x hx⟩
  -- upper bounds
  | atMost_atMost hn h => exact hI.encard_le h hn hx
  | atMost_exactly hn h => exact hI.encard_le h hn (le_of_eq hx)
  | exactly_exactly => exact hx
  -- self and given values
  | selfOf_selfOf h => exact hI.successors_subset_of_isSubProperty h x hx
  | valueOf_valueOf h => exact hI.successors_subset_of_isSubProperty h x hx
  | valueOf_someOf h =>
    obtain ⟨y, hy, hyv⟩ := hx
    rw [Expression.meaning, Set.mem_singleton_iff] at hyv
    subst hyv
    exact hI.successors_subset_of_isSubProperty h x hy
  -- complements
  | compl_compl => exact fun hexcluded => hx (hpremises _ List.mem_cons_self hexcluded)
  | disjoint h =>
    intro hexcluded
    exact Set.eq_empty_iff_forall_notMem.mp (hI.disjoint_of_toldDisjoint h) x ⟨hx, hexcluded⟩
  -- the left side is replaced by something that contains it
  | part _ he => exact hpremises _ List.mem_cons_self (Expression.mem_meaning_conj.mp hx _ he)
  | told _ he =>
    apply hpremises _ List.mem_cons_self
    rcases List.mem_append.mp he with he | he
    · exact hI.extension_subset_of_mem_superClasses he hx
    · rw [hI.meaning_of_mem_equivalentClasses he]
      exact hx
  | @type _ a t _ ht =>
    apply hpremises _ List.mem_cons_self
    rw [Expression.meaning, Set.mem_singleton_iff] at hx
    subst hx
    exact hI.type a t (Store.mem_types.mp ht)

namespace Sound

variable {ask : Expression → Expression → Bool}

/-- One round keeps containment. -/
theorem step (hI : I.Models s) (hask : Sound I ask) : Sound I (s.step ask) := by
  intro sub sup h
  obtain ⟨premises, hrule, hpremises⟩ := Store.step_iff.mp h
  refine meaning_subset_of_rule hI hrule ?_
  intro q hq
  exact hask q.1 q.2 (hpremises q hq)

theorem holdsAnyway : Sound I Store.holdsAnyway := by
  intro sub sup h
  obtain rfl | rfl | rfl := Store.holdsAnyway_iff.mp h
  · exact subset_rfl
  · have htop : Expression.top.meaning I = Set.univ := Expression.meaning_of_isTop rfl
    rw [htop]
    exact Set.subset_univ _
  · rw [Expression.meaning]
    exact Set.empty_subset _

end Sound

/-- Every number of nested rounds, from every path, derives only what holds. -/
theorem meaning_subset_of_entails (hI : I.Models s) (rounds : Nat)
    (path : List (Expression × Expression)) : Sound I (s.entails rounds path) := by
  induction rounds generalizing path with
  | zero => exact Sound.holdsAnyway
  | succ rounds ih =>
    intro sub sup h
    rcases Store.entails_succ_iff.mp h with h | ⟨-, h⟩
    · exact Sound.holdsAnyway sub sup h
    · exact Sound.step hI (ih ((sub, sup) :: path)) sub sup h

/-- Subsumption is sound: what is accepted within any depth holds in every interpretation that
models the store. -/
theorem meaning_subset_of_subsumes {Δ : Type u} (k : Knowledge) (I : Interpretation Δ)
    (hI : I.Models k.store) (sub sup : Expression) (h : k.subsumes sub sup = true) :
    sub.meaning I ⊆ sup.meaning I :=
  meaning_subset_of_entails hI (k.maxDepth + 1) [] sub sup h

/-! ### A defined class

Every A is a B, and the Cs are what has a B under p. So what has an A under p is a C, by a
definition and by the hierarchy under it. -/

namespace DefinedClass

def triples : List Triple :=
  [⟨.iri ⟨"A"⟩, .iri Rdfs.subClassOf, .iri ⟨"B"⟩⟩,
    ⟨.iri ⟨"C"⟩, .iri Owl.equivalentClass, .blank ⟨0, none⟩⟩,
    ⟨.blank ⟨0, none⟩, .iri Owl.onProperty, .iri ⟨"p"⟩⟩,
    ⟨.blank ⟨0, none⟩, .iri Owl.someValuesFrom, .iri ⟨"B"⟩⟩]

def knowledge : Knowledge := ⟨.ofList triples, 2⟩

def definition : Expression := .someOf (.iri ⟨"p"⟩) (.concept (.iri ⟨"B"⟩))

theorem store_triples : knowledge.store.triples = triples := by
  rw [knowledge, Store.ofList, Store.triples_insertAll]
  decide

theorem expression_node : knowledge.store.expression (.blank ⟨0, none⟩) = definition := by
  have hform : knowledge.store.form? (.blank ⟨0, none⟩) = some (.some (.iri ⟨"p"⟩) (.iri ⟨"B"⟩)) :=
    rfl
  rw [Store.expression, Store.readExpression_of_form? (by simp) hform, NodeForm.toExpression,
    Store.readExpression_iri]
  rfl

theorem expression_blank {b : BlankNode} (hb : b ≠ ⟨0, none⟩) :
    knowledge.store.expression (.blank b) = .concept (.blank b) := by
  apply Store.expression_of_outgoing_eq_nil
  rw [Store.outgoing_eq_edgesFrom, store_triples]
  simp [edgesFrom, triples, Ne.symm hb]

theorem subsumes_definition :
    knowledge.subsumes (.someOf (.iri ⟨"p"⟩) (.concept (.iri ⟨"A"⟩))) (.concept (.iri ⟨"C"⟩)) =
      true := by
  have hequivalent : knowledge.store.equivalentClasses (.iri ⟨"C"⟩) = [definition] := by
    have hnodes : knowledge.store.objects (.iri ⟨"C"⟩) Owl.equivalentClass ++
        knowledge.store.subjects Owl.equivalentClass (.iri ⟨"C"⟩) = [.blank ⟨0, none⟩] := by
      decide
    rw [Store.equivalentClasses, hnodes, List.map_singleton, expression_node]
    rfl
  have htold : .iri ⟨"B"⟩ ∈ knowledge.store.toldSupers (.iri ⟨"A"⟩) :=
    Store.mem_toldSupers_of_mem_nextSupers (Store.self_mem_toldSupers _ _) (by decide)
  rw [Knowledge.subsumes, Store.subsumes, show knowledge.maxDepth = 2 from rfl]
  -- by the definition of C, then under p, then by the hierarchy
  apply Store.entails_of_step (by simp)
  simp only [Store.step, Store.stepByForm, hequivalent, Bool.or_eq_true, List.any_eq_true]
  refine Or.inl (Or.inr ⟨definition, by simp [definition, Expression.concept?], ?_⟩)
  apply Store.entails_of_step (by simp [definition])
  simp only [definition, Store.step, Store.stepByForm, Bool.or_eq_true, Bool.and_eq_true]
  refine Or.inl ⟨by simp [Store.isSubProperty], ?_⟩
  exact Store.entails_of_mem_toldSupers (by simp) htold

/-- One element is an A and a B, and the other one has it under p. -/
def model : Interpretation Bool where
  extension t :=
    if t = .iri ⟨"A"⟩ ∨ t = .iri ⟨"B"⟩ then {true}
    else if t = .iri ⟨"C"⟩ ∨ t = .blank ⟨0, none⟩ then {false}
    else if t = .iri Owl.thing then Set.univ
    else ∅
  relation p x y := p = .iri ⟨"p"⟩ ∧ x = false ∧ y = true
  element _ := true

theorem told_cases {subject object : Term} {property : Iri}
    (h : ⟨subject, .iri property, object⟩ ∈ knowledge.store.triples) :
    (property = Rdfs.subClassOf ∧ subject = .iri ⟨"A"⟩ ∧ object = .iri ⟨"B"⟩) ∨
      (property = Owl.equivalentClass ∧ subject = .iri ⟨"C"⟩ ∧ object = .blank ⟨0, none⟩) ∨
        property = Owl.onProperty ∨ property = Owl.someValuesFrom := by
  rw [store_triples] at h
  simp only [triples, List.mem_cons, List.not_mem_nil, or_false, Triple.mk.injEq,
    Term.iri.injEq] at h
  rcases h with ⟨hs, hp, ho⟩ | ⟨hs, hp, ho⟩ | ⟨-, hp, -⟩ | ⟨-, hp, -⟩
  · exact Or.inl ⟨hp, hs, ho⟩
  · exact Or.inr (Or.inl ⟨hp, hs, ho⟩)
  · exact Or.inr (Or.inr (Or.inl hp))
  · exact Or.inr (Or.inr (Or.inr hp))

theorem property_mem {subject object : Term} {property : Iri}
    (h : ⟨subject, .iri property, object⟩ ∈ knowledge.store.triples) :
    property ∈ [Rdfs.subClassOf, Owl.equivalentClass, Owl.onProperty, Owl.someValuesFrom] := by
  rcases told_cases h with ⟨rfl, -⟩ | ⟨rfl, -⟩ | rfl | rfl
  · simp
  · simp
  · simp
  · simp

theorem extension_node :
    model.extension (.blank ⟨0, none⟩) = definition.meaning model := by
  ext x
  simp [model, definition, Expression.meaning]

theorem model_models : model.Models knowledge.store where
  reading := by
    intro node
    cases node with
    | iri i =>
      rw [Store.expression, Store.readExpression_iri, Expression.named]
      split
      · rename_i hi
        subst hi
        simp [model, Owl.thing, Expression.meaning]
      · split
        · rename_i hi
          subst hi
          simp [model, Owl.thing, Owl.nothing, Expression.meaning]
        · rw [Expression.meaning]
    | literal l => rw [Store.expression, Store.readExpression_literal, Expression.meaning]
    | blank b =>
      by_cases hb : b = ⟨0, none⟩
      · subst hb
        rw [expression_node, extension_node]
      · rw [expression_blank hb, Expression.meaning]
  subClassOf := by
    intro c d h
    rcases told_cases h with ⟨-, rfl, rfl⟩ | ⟨h, -⟩ | h | h
    · simp [model]
    · exact absurd h (by decide)
    · exact absurd h (by decide)
    · exact absurd h (by decide)
  equivalentClass := by
    intro c d h
    rcases told_cases h with ⟨h, -⟩ | ⟨-, rfl, rfl⟩ | h | h
    · exact absurd h (by decide)
    · simp [model]
    · exact absurd h (by decide)
    · exact absurd h (by decide)
  disjointWith := fun _ _ h => absurd (property_mem h) (by decide)
  subPropertyOf := fun _ _ h => absurd (property_mem h) (by decide)
  equivalentProperty := fun _ _ h => absurd (property_mem h) (by decide)
  type := fun _ _ h => absurd (property_mem h) (by decide)

/-- In the model, what has an A under p is a C. -/
theorem meaning_subset_of_definition :
    model.Models knowledge.store ∧
      knowledge.subsumes (.someOf (.iri ⟨"p"⟩) (.concept (.iri ⟨"A"⟩))) (.concept (.iri ⟨"C"⟩)) =
        true ∧
      (Expression.someOf (.iri ⟨"p"⟩) (.concept (.iri ⟨"A"⟩))).meaning model ⊆
        (Expression.concept (.iri ⟨"C"⟩)).meaning model :=
  ⟨model_models, subsumes_definition,
    meaning_subset_of_subsumes knowledge model model_models _ _ subsumes_definition⟩

end DefinedClass

end GraphConformance
