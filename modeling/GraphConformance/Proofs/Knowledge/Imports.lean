import GraphConformance.Proofs.Expression.Reading
import GraphConformance.Proofs.Knowledge.Decision
import GraphConformance.Proofs.Knowledge.Inconsistency

/-!
# Imports only add

A node is read by the first edges that leave it, so what it denotes may change when triples are
added. `Store.Extends` says what keeps the reading of a store: nothing new leaves its blank nodes
and its list cells, and no node at which one of its lists breaks off (`Store.BreaksOffAt`) gets an
item. Then every node of the store is read as before (`Extends.expression_eq`), every rule stays a
rule (`Extends.rule`), and what follows in some rounds follows in as many (`Extends.entailsFreely`).

Documents that leave the blank nodes and the list cells of an ontology alone may still give an item
to a node at which a list breaks off, and so take a subsumption away (`OpenList`).
-/

set_option autoImplicit false

namespace GraphConformance

open Vocabulary

namespace Store

/-- A list is looked for at the node: a blank node gives it as the list of a form, or a cell gives
it as the next cell. -/
inductive OnList (s : Store) : Term → Prop where
  | head {b : BlankNode} {p : Iri} {x : Term}
      (hp : p ∈ [Owl.intersectionOf, Owl.unionOf, Owl.oneOf])
      (h : ⟨.blank b, .iri p, x⟩ ∈ s.triples) : OnList s x
  | next {cell x : Term} (h : ⟨cell, .iri Rdf.rest, x⟩ ∈ s.triples) : OnList s x

/-- A list ends at the node, which is not the end of a list and lacks an item. -/
structure BreaksOffAt (s : Store) (x : Term) : Prop where
  onList : s.OnList x
  not_nil : x ≠ .iri Rdf.nil
  no_item : s.object? x Rdf.first = none

/-- The second store holds the triples of the first one, and reads the nodes of the first one in the
same way. -/
structure Extends (s s' : Store) : Prop where
  subset : s.triples ⊆ s'.triples
  outgoing_blank : ∀ b, s.mentions (.blank b) = true →
    s'.outgoing (.blank b) = s.outgoing (.blank b)
  outgoing_cell : ∀ x item, ⟨x, .iri Rdf.first, item⟩ ∈ s.triples → s'.outgoing x = s.outgoing x
  no_item : ∀ x, s.BreaksOffAt x → s'.object? x Rdf.first = none

variable {s s' : Store} {x y : Term} {p : Iri} {sub sup : Expression}

theorem OnList.mentions (h : s.OnList x) : s.mentions x = true := by
  cases h with
  | head _ h => exact mentions_iff.mpr ⟨_, h, Or.inr (Or.inr rfl)⟩
  | next h => exact mentions_iff.mpr ⟨_, h, Or.inr (Or.inr rfl)⟩

theorem mem_triples_of_object? (h : s.object? x p = some y) : ⟨x, .iri p, y⟩ ∈ s.triples :=
  mem_outgoing.mp (exists_edge_of_object? h)

theorem mentions_of_object? (h : s.object? x p = some y) : s.mentions y = true :=
  mentions_iff.mpr ⟨_, mem_triples_of_object? h, Or.inr (Or.inr rfl)⟩

theorem mentions_of_mem_listFrom {passed : List Term} {cell : Term}
    (h : x ∈ s.listFrom passed cell) : s.mentions x = true := by
  fun_induction s.listFrom passed cell with
  | case1 passed cell hstop => cases h
  | case2 passed cell hgo hfirst => cases h
  | case3 passed cell hgo item hfirst hrest =>
    rw [List.mem_singleton.mp h]
    exact mentions_of_object? hfirst
  | case4 passed cell hgo item hfirst next hrest _ ih =>
    rcases List.mem_cons.mp h with rfl | h
    · exact mentions_of_object? hfirst
    · exact ih h

theorem mentions_of_restriction? {property : Term} {form : NodeForm}
    (hform : s.restriction? x property = some form) (h : y ∈ form.parts) :
    s.mentions y = true := by
  unfold restriction? at hform
  split at hform
  · rename_i filler hfiller
    obtain rfl := Option.some.inj hform
    rw [List.mem_singleton.mp h]
    exact mentions_of_object? hfiller
  split at hform
  · rename_i filler hfiller
    obtain rfl := Option.some.inj hform
    rw [List.mem_singleton.mp h]
    exact mentions_of_object? hfiller
  -- the other restrictions have no parts
  have hparts : form.parts = [] := by
    split at hform
    · obtain rfl := Option.some.inj hform
      rfl
    split at hform
    · obtain rfl := Option.some.inj hform
      rfl
    · simp only [Option.or_eq_some_iff, Option.map_eq_some_iff] at hform
      obtain ⟨_, _, rfl⟩ | ⟨-, ⟨_, _, rfl⟩ | ⟨-, _, _, rfl⟩⟩ := hform <;> rfl
  rw [hparts] at h
  cases h

/-- The nodes that are read with a node occur in the store. -/
theorem mentions_of_form? {form : NodeForm} (hform : s.form? x = some form) (h : y ∈ form.parts) :
    s.mentions y = true := by
  unfold form? at hform
  split at hform
  · obtain rfl := Option.some.inj hform
    exact mentions_of_mem_listFrom h
  split at hform
  · obtain rfl := Option.some.inj hform
    exact mentions_of_mem_listFrom h
  split at hform
  · rename_i part hpart
    obtain rfl := Option.some.inj hform
    rw [List.mem_singleton.mp h]
    exact mentions_of_object? hpart
  split at hform
  · obtain rfl := Option.some.inj hform
    cases h
  split at hform
  · exact mentions_of_restriction? hform h
  · cases hform

/-! ## Nodes are read as before -/

namespace Extends

variable (h : s.Extends s')

include h

theorem object?_blank {b : BlankNode} (hb : s.mentions (.blank b) = true) (p : Iri) :
    s'.object? (.blank b) p = s.object? (.blank b) p := by
  rw [object?, h.outgoing_blank b hb, object?]

theorem object?_cell {item : Term} (hfirst : s.object? x Rdf.first = some item) (p : Iri) :
    s'.object? x p = s.object? x p := by
  rw [object?, h.outgoing_cell x item (mem_triples_of_object? hfirst), object?]

theorem listFrom {passed : List Term} {cell : Term} (hcell : s.OnList cell) :
    s'.listFrom passed cell = s.listFrom passed cell := by
  fun_induction s.listFrom passed cell with
  | case1 passed cell hstop => rw [Store.listFrom, dif_pos hstop]
  | case2 passed cell hgo hfirst =>
    -- the list breaks off here, and goes on breaking off
    have hbreaks : s.BreaksOffAt cell :=
      ⟨hcell, fun hnil => hgo (Or.inl hnil), hfirst⟩
    rw [listFrom_of_not_end hgo, h.no_item cell hbreaks]
    rfl
  | case3 passed cell hgo item hfirst hrest =>
    rw [listFrom_of_not_end hgo, h.object?_cell hfirst, h.object?_cell hfirst, hfirst, hrest]
    rfl
  | case4 passed cell hgo item hfirst next hrest _ ih =>
    have hnext : s.OnList next := .next (mem_triples_of_object? hrest)
    rw [listFrom_of_not_end hgo, h.object?_cell hfirst, h.object?_cell hfirst, hfirst, hrest,
      Option.elim_some, Option.elim_some, ih hnext]

theorem listItems {b : BlankNode} {head : Term}
    (hp : p ∈ [Owl.intersectionOf, Owl.unionOf, Owl.oneOf])
    (hhead : s.object? (.blank b) p = some head) : s'.listItems head = s.listItems head :=
  h.listFrom (.head hp (mem_triples_of_object? hhead))

theorem form? {b : BlankNode} (hb : s.mentions (.blank b) = true) :
    s'.form? (.blank b) = s.form? (.blank b) := by
  have hobject := h.object?_blank hb
  have hrestriction : ∀ property,
      s'.restriction? (.blank b) property = s.restriction? (.blank b) property := by
    intro property
    simp only [restriction?, boundOf?, bound?, hobject]
  simp only [Store.form?, hobject, hrestriction]
  cases hmeet : s.object? (.blank b) Owl.intersectionOf with
  | some head =>
    exact congrArg (fun items => some (NodeForm.intersection items)) (h.listItems (by simp) hmeet)
  | none =>
    cases hjoin : s.object? (.blank b) Owl.unionOf with
    | some head =>
      exact congrArg (fun items => some (NodeForm.union items)) (h.listItems (by simp) hjoin)
    | none =>
      cases s.object? (.blank b) Owl.complementOf with
      | some part => rfl
      | none =>
        cases hone : s.object? (.blank b) Owl.oneOf with
        | some head =>
          exact congrArg (fun items => some (NodeForm.enumeration items))
            (h.listItems (by simp) hone)
        | none => rfl

theorem readExpression (inside : List Term) (hx : s.mentions x = true) :
    s'.readExpression inside x = s.readExpression inside x := by
  -- on what the reading is not inside of yet: the parts of a node are read with that node inside
  induction hn : s.remaining inside using Nat.strongRecOn generalizing inside x with
  | ind n ih =>
    subst hn
    cases x with
    | iri i => rw [readExpression_iri, readExpression_iri]
    | literal l => rw [readExpression_literal, readExpression_literal]
    | blank b =>
      by_cases hb : .blank b ∈ inside
      · rw [readExpression_of_mem hb, readExpression_of_mem hb]
      have hform' := h.form? hx
      cases hform : s.form? (.blank b) with
      | none =>
        rw [readExpression_of_form?_eq_none hform,
          readExpression_of_form?_eq_none (hform'.trans hform)]
      | some form =>
        obtain ⟨e, he⟩ := exists_edge_of_form? hform
        rw [readExpression_of_form? hb hform, readExpression_of_form? hb (hform'.trans hform)]
        apply NodeForm.toExpression_congr
        intro y hy
        exact ih _ (remaining_lt hb he) _ (mentions_of_form? hform hy) rfl

theorem expression_eq (hx : s.mentions x = true) : s'.expression x = s.expression x :=
  h.readExpression [] hx

/-! ## Rules stay rules -/

theorem mem_toldSupers {c d : Term} (hd : d ∈ s.toldSupers c) : d ∈ s'.toldSupers c := by
  rw [mem_toldSupers_iff_isNextAbove] at hd ⊢
  exact reflTransGen_isNextAbove_mono h.subset hd

theorem isSubProperty {p q : Term} (hpq : s.isSubProperty p q = true) :
    s'.isSubProperty p q = true := by
  rw [isSubProperty_iff] at hpq ⊢
  have hnext : (fun a b => b ∈ s.nextSuperProperties a) ≤
      fun a b => b ∈ s'.nextSuperProperties a := by
    intro a b hb
    rw [mem_nextSuperProperties] at hb ⊢
    exact hb.imp (h.subset ·) (Or.imp (h.subset ·) (h.subset ·))
  exact Relation.ReflTransGen.mono hnext _ _ hpq

theorem toldDisjoint {c excluded : Term} (hd : s.toldDisjoint c excluded = true) :
    s'.toldDisjoint c excluded = true := by
  rw [toldDisjoint_iff] at hd ⊢
  obtain ⟨d, hcd, e, he, hde⟩ := hd
  exact ⟨d, h.mem_toldSupers hcd, e, h.mem_toldSupers he, hde.imp (h.subset ·) (h.subset ·)⟩

theorem mem_superClasses {c : Term} {e : Expression} (he : e ∈ s.superClasses c) :
    e ∈ s'.superClasses c := by
  obtain ⟨d, hd, rfl⟩ := Store.mem_superClasses.mp he
  have hmentions : s.mentions d = true := mentions_iff.mpr ⟨_, hd, Or.inr (Or.inr rfl)⟩
  exact Store.mem_superClasses.mpr ⟨d, h.subset hd, h.expression_eq hmentions⟩

theorem mem_equivalentClasses {c : Term} {e : Expression} (he : e ∈ s.equivalentClasses c) :
    e ∈ s'.equivalentClasses c := by
  obtain ⟨d, hd, rfl⟩ := Store.mem_equivalentClasses.mp he
  have hmentions : s.mentions d = true := by
    rcases hd with hd | hd
    · exact mentions_iff.mpr ⟨_, hd, Or.inr (Or.inr rfl)⟩
    · exact mentions_iff.mpr ⟨_, hd, Or.inl rfl⟩
  exact Store.mem_equivalentClasses.mpr
    ⟨d, hd.imp (h.subset ·) (h.subset ·), h.expression_eq hmentions⟩

theorem mem_told {c : Term} {e : Expression} (he : e ∈ s.superClasses c ++ s.equivalentClasses c) :
    e ∈ s'.superClasses c ++ s'.equivalentClasses c := by
  rcases List.mem_append.mp he with he | he
  · exact List.mem_append_left _ (h.mem_superClasses he)
  · exact List.mem_append_right _ (h.mem_equivalentClasses he)

theorem mem_types {a c : Term} (hc : c ∈ s.types a) : c ∈ s'.types a :=
  Store.mem_types.mpr (h.subset (Store.mem_types.mp hc))

theorem rule {premises : List (Expression × Expression)} (hrule : s.Rule premises sub sup) :
    s'.Rule premises sub sup := by
  cases hrule with
  | leftUnion => exact .leftUnion
  | rightIntersection hsub => exact .rightIntersection hsub
  | rightUnion hsub he => exact .rightUnion hsub he
  | hierarchy hc => exact .hierarchy (h.mem_toldSupers hc)
  | definition hsub he hnode => exact .definition hsub (h.mem_equivalentClasses he) hnode
  | someOf_someOf hp => exact .someOf_someOf (h.isSubProperty hp)
  | someOf_atLeast hn htop hp => exact .someOf_atLeast hn htop (h.isSubProperty hp)
  | someOf_exactly hn htop hp => exact .someOf_exactly hn htop (h.isSubProperty hp)
  | someOf_valueOf hp => exact .someOf_valueOf (h.isSubProperty hp)
  | onlyOf_onlyOf hp => exact .onlyOf_onlyOf (h.isSubProperty hp)
  | atLeast_zero hsub => exact .atLeast_zero hsub
  | atLeast_atLeast hn hp => exact .atLeast_atLeast hn (h.isSubProperty hp)
  | atLeast_exactly hn hp => exact .atLeast_exactly hn (h.isSubProperty hp)
  | atLeast_someOf hp => exact .atLeast_someOf (h.isSubProperty hp)
  | atLeast_valueOf hp => exact .atLeast_valueOf (h.isSubProperty hp)
  | atMost_atMost hn hp => exact .atMost_atMost hn (h.isSubProperty hp)
  | atMost_exactly hn hp => exact .atMost_exactly hn (h.isSubProperty hp)
  | exactly_exactly => exact .exactly_exactly
  | selfOf_selfOf hp => exact .selfOf_selfOf (h.isSubProperty hp)
  | valueOf_valueOf hp => exact .valueOf_valueOf (h.isSubProperty hp)
  | valueOf_someOf hp => exact .valueOf_someOf (h.isSubProperty hp)
  | compl_compl => exact .compl_compl
  | disjoint hd => exact .disjoint (h.toldDisjoint hd)
  | part hsup he => exact .part hsup he
  | told hsup he => exact .told hsup (h.mem_told he)
  | type hsup ht => exact .type hsup (h.mem_types ht)

theorem step {ask ask' : Expression → Expression → Bool}
    (hask : ∀ e f, ask e f = true → ask' e f = true) (hstep : s.step ask sub sup = true) :
    s'.step ask' sub sup = true := by
  rw [step_iff] at hstep ⊢
  obtain ⟨premises, hrule, hpremises⟩ := hstep
  refine ⟨premises, h.rule hrule, ?_⟩
  intro q hq
  exact hask q.1 q.2 (hpremises q hq)

theorem entailsFreely {n : Nat} (hentails : s.entailsFreely n sub sup = true) :
    s'.entailsFreely n sub sup = true := by
  induction n generalizing sub sup with
  | zero => exact hentails
  | succ n ih =>
    rw [entailsFreely_succ_iff] at hentails ⊢
    exact hentails.imp_right (h.step fun _ _ => ih)

theorem subsumes {maxDepth : Nat} (hsubsumes : s.subsumes maxDepth sub sup = true) :
    s'.subsumes maxDepth sub sup = true := by
  rw [subsumes_eq_entailsFreely] at hsubsumes ⊢
  exact h.entailsFreely hsubsumes

end Extends

/-! ## Documents beside an ontology -/

/-- No triple of the documents leaves a blank node or a list cell of the store. -/
structure LeftAloneBy (s : Store) (documents : List Store) : Prop where
  not_blank : ∀ document ∈ documents, ∀ t ∈ document.triples, t.subject.isAnonymous = true →
    s.mentions t.subject = false
  not_cell : ∀ document ∈ documents, ∀ t ∈ document.triples, ∀ p ∈ [Rdf.first, Rdf.rest],
    s.object? t.subject p = none

/-- No triple of the documents gives an item to a node at which a list of the store breaks off. -/
def NotContinuedBy (s : Store) (documents : List Store) : Prop :=
  ∀ document ∈ documents, ∀ t ∈ document.triples, t.predicate = .iri Rdf.first →
    ¬ s.BreaksOffAt t.subject

theorem edgesFrom_union {ts us : List Triple} (hus : ∀ t ∈ us, t.subject ≠ x) :
    edgesFrom (Distinct.union ts us) x = edgesFrom ts x := by
  induction us generalizing ts with
  | nil => rfl
  | cons t us ih =>
    obtain ⟨ht, hus⟩ := List.forall_mem_cons.mp hus
    rw [Distinct.union_cons, ih hus, Distinct.insertLast]
    split
    · rfl
    · rw [edgesFrom_append, if_neg (Ne.symm ht)]

/-- Documents in which a node is no subject leave its edges as they are. -/
theorem outgoing_foldl_merge {documents : List Store}
    (hx : ∀ document ∈ documents, ∀ t ∈ document.triples, t.subject ≠ x) :
    (documents.foldl merge s).outgoing x = s.outgoing x := by
  rw [outgoing_eq_edgesFrom, outgoing_eq_edgesFrom, triples_foldl_merge]
  apply edgesFrom_union
  intro t ht
  obtain ⟨document, hdocument, ht⟩ := List.mem_flatMap.mp ht
  exact hx document hdocument t ht

theorem LeftAloneBy.extends_foldl_merge {documents : List Store} (h : s.LeftAloneBy documents)
    (hlists : s.NotContinuedBy documents) : s.Extends (documents.foldl merge s) where
  subset := subset_foldl_merge documents s
  outgoing_blank := by
    intro b hb
    apply outgoing_foldl_merge
    intro document hdocument t ht heq
    have hnot := h.not_blank document hdocument t ht (by rw [heq]; rfl)
    rw [heq, hb] at hnot
    cases hnot
  outgoing_cell := by
    intro x item hitem
    apply outgoing_foldl_merge
    rintro document hdocument t ht rfl
    have hnone := h.not_cell document hdocument t ht Rdf.first (by simp)
    exact object?_eq_none_iff.mp hnone item hitem
  no_item := by
    intro x hbreaks
    rw [object?_eq_none_iff]
    intro item hitem
    rcases mem_foldl_merge.mp hitem with hitem | ⟨document, hdocument, hitem⟩
    · exact object?_eq_none_iff.mp hbreaks.no_item item hitem
    · exact hlists document hdocument _ hitem rfl hbreaks

end Store

/-- Imports only add subsumptions: documents that leave the blank nodes and the list cells of the
ontology alone, and continue no list of it, can be imported into an idle knowledge base, and while
they are, all is entailed that the ontology alone entails. -/
theorem subsumes_of_imported (kb : KnowledgeBase) (documents : List Store)
    (hidle : kb.active = none) (halone : kb.ontology.LeftAloneBy documents)
    (hlists : kb.ontology.NotContinuedBy documents) :
    ∃ ticket kb', kb.importAll? documents = some (ticket, kb') ∧
      ∀ sub sup, (Knowledge.mk kb.ontology kb.maxDepth).subsumes sub sup = true →
        kb'.knowledge.subsumes sub sup = true := by
  refine ⟨_, _, KnowledgeBase.importAll?_eq_some_iff.mpr ⟨hidle, rfl, rfl⟩, ?_⟩
  intro sub sup h
  exact (halone.extends_foldl_merge hlists).subsumes h

/-! X is the union of A and B. A document puts A below C and has a list of its own. -/

namespace OwnList

def ontology : Store := .ofList
  [⟨.iri ⟨"X"⟩, .iri Owl.equivalentClass, .blank ⟨1, none⟩⟩,
    ⟨.blank ⟨1, none⟩, .iri Owl.unionOf, .blank ⟨2, none⟩⟩,
    ⟨.blank ⟨2, none⟩, .iri Rdf.first, .iri ⟨"A"⟩⟩,
    ⟨.blank ⟨2, none⟩, .iri Rdf.rest, .blank ⟨3, none⟩⟩,
    ⟨.blank ⟨3, none⟩, .iri Rdf.first, .iri ⟨"B"⟩⟩,
    ⟨.blank ⟨3, none⟩, .iri Rdf.rest, .iri Rdf.nil⟩]

def document : Store := .ofList
  [⟨.iri ⟨"A"⟩, .iri Rdfs.subClassOf, .iri ⟨"C"⟩⟩,
    ⟨.blank ⟨9, none⟩, .iri Rdf.first, .iri ⟨"A"⟩⟩,
    ⟨.blank ⟨9, none⟩, .iri Rdf.rest, .iri Rdf.nil⟩]

theorem leftAloneBy_document : ontology.LeftAloneBy [document] where
  not_blank := by decide
  not_cell := by decide

theorem notContinuedBy_document : ontology.NotContinuedBy [document] := by
  have hunknown : ∀ d ∈ [document], ∀ t ∈ d.triples, t.predicate = .iri Rdf.first →
      ontology.mentions t.subject = false := by decide
  intro d hd t ht hfirst hbreaks
  have hmentions := hbreaks.onList.mentions
  rw [hunknown d hd t ht hfirst] at hmentions
  cases hmentions

theorem expression_definition : ontology.expression (.blank ⟨1, none⟩) =
    .disj [.concept (.iri ⟨"A"⟩), .concept (.iri ⟨"B"⟩)] := by
  have hform : ontology.form? (.blank ⟨1, none⟩) =
      some (.union (ontology.listItems (.blank ⟨2, none⟩))) := rfl
  have hitems : ontology.listItems (.blank ⟨2, none⟩) = [.iri ⟨"A"⟩, .iri ⟨"B"⟩] := by
    have hfirst : ontology.object? (.blank ⟨2, none⟩) Rdf.first = some (.iri ⟨"A"⟩) := rfl
    have hrest : ontology.object? (.blank ⟨2, none⟩) Rdf.rest = some (.blank ⟨3, none⟩) := rfl
    have hfirst' : ontology.object? (.blank ⟨3, none⟩) Rdf.first = some (.iri ⟨"B"⟩) := rfl
    have hrest' : ontology.object? (.blank ⟨3, none⟩) Rdf.rest = some (.iri Rdf.nil) := rfl
    rw [Store.listItems, Store.listFrom_of_not_end (by decide), hfirst, hrest, Option.elim_some,
      Option.elim_some, Store.listFrom_of_not_end (by decide), hfirst', hrest', Option.elim_some,
      Option.elim_some, Store.listFrom, dif_pos (Or.inl rfl)]
  rw [Store.expression, Store.readExpression_of_form? (by simp) hform, hitems,
    NodeForm.toExpression, List.map_cons, List.map_singleton, Store.readExpression_iri,
    Store.readExpression_iri]
  decide

theorem subsumes_union (maxDepth : Nat) (hdepth : 1 ≤ maxDepth) :
    ontology.subsumes maxDepth (.concept (.iri ⟨"A"⟩)) (.concept (.iri ⟨"X"⟩)) = true := by
  have hmem : .disj [.concept (.iri ⟨"A"⟩), .concept (.iri ⟨"B"⟩)] ∈
      ontology.equivalentClasses (.iri ⟨"X"⟩) :=
    Store.mem_equivalentClasses.mpr ⟨.blank ⟨1, none⟩, Or.inl (by decide), expression_definition⟩
  obtain ⟨n, rfl⟩ : ∃ n, maxDepth = n + 1 := ⟨maxDepth - 1, by omega⟩
  rw [Store.subsumes_eq_entailsFreely, Store.entailsFreely_succ_iff]
  refine Or.inr (Store.step_of_rule (.definition rfl hmem rfl) ?_)
  rw [List.forall_mem_singleton, Store.entailsFreely_succ_iff]
  refine Or.inr (Store.step_of_rule (.rightUnion rfl List.mem_cons_self) ?_)
  rw [List.forall_mem_singleton]
  exact Store.entailsFreely_of_holdsAnyway (by decide) n

/-- That all A are X stays entailed while the document is imported. -/
theorem subsumes_imported : ontology.LeftAloneBy [document] ∧ ontology.NotContinuedBy [document] ∧
    ∃ ticket kb', (KnowledgeBase.ofOntology ontology 1).importAll? [document] = some (ticket, kb') ∧
      kb'.knowledge.subsumes (.concept (.iri ⟨"A"⟩)) (.concept (.iri ⟨"X"⟩)) = true := by
  refine ⟨leftAloneBy_document, notContinuedBy_document, ?_⟩
  obtain ⟨ticket, kb', himport, hsubsumes⟩ := subsumes_of_imported (.ofOntology ontology 1)
    [document] rfl leftAloneBy_document notContinuedBy_document
  exact ⟨ticket, kb', himport, hsubsumes _ _ (subsumes_union 1 le_rfl)⟩

end OwnList

/-! X is the union of a list that no triple describes, so there are no Xs. A document gives the list
an item, A, and there may be Xs that are no Ys. -/

namespace OpenList

def ontology : Store := .ofList
  [⟨.iri ⟨"X"⟩, .iri Owl.equivalentClass, .blank ⟨1, none⟩⟩,
    ⟨.blank ⟨1, none⟩, .iri Owl.unionOf, .iri ⟨"l"⟩⟩]

def document : Store := .ofList [⟨.iri ⟨"l"⟩, .iri Rdf.first, .iri ⟨"A"⟩⟩]

theorem leftAloneBy_document : ontology.LeftAloneBy [document] where
  not_blank := by decide
  not_cell := by decide

theorem expression_definition : ontology.expression (.blank ⟨1, none⟩) = .bottom := by
  have hform : ontology.form? (.blank ⟨1, none⟩) =
      some (.union (ontology.listItems (.iri ⟨"l"⟩))) := rfl
  have hfirst : ontology.object? (.iri ⟨"l"⟩) Rdf.first = none := rfl
  have hitems : ontology.listItems (.iri ⟨"l"⟩) = [] := by
    rw [Store.listItems, Store.listFrom_of_not_end (by decide), hfirst, Option.elim_none]
  rw [Store.expression, Store.readExpression_of_form? (by simp) hform, hitems]
  decide

theorem expression_definition_merge :
    (ontology.merge document).expression (.blank ⟨1, none⟩) = .concept (.iri ⟨"A"⟩) := by
  have hform : (ontology.merge document).form? (.blank ⟨1, none⟩) =
      some (.union ((ontology.merge document).listItems (.iri ⟨"l"⟩))) := rfl
  have hfirst : (ontology.merge document).object? (.iri ⟨"l"⟩) Rdf.first =
      some (.iri ⟨"A"⟩) := rfl
  have hrest : (ontology.merge document).object? (.iri ⟨"l"⟩) Rdf.rest = none := rfl
  have hitems : (ontology.merge document).listItems (.iri ⟨"l"⟩) = [.iri ⟨"A"⟩] := by
    rw [Store.listItems, Store.listFrom_of_not_end (by decide), hfirst, hrest, Option.elim_some,
      Option.elim_none]
  rw [Store.expression, Store.readExpression_of_form? (by simp) hform, hitems,
    NodeForm.toExpression, List.map_singleton, Store.readExpression_iri]
  decide

theorem subsumes_alone (maxDepth : Nat) :
    ontology.subsumes maxDepth (.concept (.iri ⟨"X"⟩)) (.concept (.iri ⟨"Y"⟩)) = true := by
  have hmem : .bottom ∈ ontology.equivalentClasses (.iri ⟨"X"⟩) :=
    Store.mem_equivalentClasses.mpr ⟨.blank ⟨1, none⟩, Or.inl (by decide), expression_definition⟩
  rw [Store.subsumes_eq_entailsFreely, Store.entailsFreely_succ_iff]
  refine Or.inr (Store.step_of_rule (.told rfl (List.mem_append_right _ hmem)) ?_)
  rw [List.forall_mem_singleton]
  exact Store.entailsFreely_of_holdsAnyway (by decide) maxDepth

theorem equivalentClasses_merge : (ontology.merge document).equivalentClasses (.iri ⟨"X"⟩) =
    [.concept (.iri ⟨"A"⟩)] := by
  have hobjects : (ontology.merge document).objects (.iri ⟨"X"⟩) Owl.equivalentClass =
    [.blank ⟨1, none⟩] := rfl
  have hsubjects : (ontology.merge document).subjects Owl.equivalentClass (.iri ⟨"X"⟩) = [] := rfl
  rw [Store.equivalentClasses, hobjects, hsubjects, List.append_nil, List.map_singleton,
    expression_definition_merge]
  rfl

/-- Only what is told above a class can make it a Y. -/
theorem entailsFreely_Y {n : Nat} {c : Term} (hc : (ontology.merge document).toldSupers c = [c])
    (hne : c ≠ .iri ⟨"Y"⟩)
    (h : (ontology.merge document).entailsFreely (n + 1) (.concept c) (.concept (.iri ⟨"Y"⟩)) =
      true) :
    ∃ e ∈ (ontology.merge document).superClasses c ++ (ontology.merge document).equivalentClasses c,
      (ontology.merge document).entailsFreely n e (.concept (.iri ⟨"Y"⟩)) = true := by
  rcases Store.entailsFreely_succ_iff.mp h with h | h
  · rw [Store.holdsAnyway_iff] at h
    exact absurd h (by simp [hne])
  · rcases Store.step_concept_iff.mp h with hY | ⟨e, he, -⟩ | htold
    · rw [hc, List.mem_singleton] at hY
      exact absurd hY.symm hne
    · have hnone : (ontology.merge document).equivalentClasses (.iri ⟨"Y"⟩) = [] := rfl
      rw [hnone] at he
      cases he
    · exact htold

theorem entailsFreely_A (n : Nat) : (ontology.merge document).entailsFreely n
    (.concept (.iri ⟨"A"⟩)) (.concept (.iri ⟨"Y"⟩)) = false := by
  rw [← Bool.not_eq_true]
  intro h
  cases n with
  | zero => exact absurd h (by decide)
  | succ n =>
    obtain ⟨e, he, -⟩ := entailsFreely_Y (Store.toldSupers_eq_singleton rfl) (by decide) h
    have hnone : (ontology.merge document).superClasses (.iri ⟨"A"⟩) ++
      (ontology.merge document).equivalentClasses (.iri ⟨"A"⟩) = [] := rfl
    rw [hnone] at he
    cases he

theorem subsumes_merge (maxDepth : Nat) : (ontology.merge document).subsumes maxDepth
    (.concept (.iri ⟨"X"⟩)) (.concept (.iri ⟨"Y"⟩)) = false := by
  rw [← Bool.not_eq_true, Store.subsumes_eq_entailsFreely]
  intro h
  obtain ⟨e, he, h⟩ := entailsFreely_Y (Store.toldSupers_eq_singleton rfl) (by decide) h
  have hsuper : (ontology.merge document).superClasses (.iri ⟨"X"⟩) = [] := rfl
  rw [hsuper, equivalentClasses_merge, List.nil_append, List.mem_singleton] at he
  rw [he, entailsFreely_A] at h
  cases h

/-- To leave the blank nodes and the list cells of the ontology alone is not enough. -/
theorem not_forall_subsumes_of_leftAloneBy :
    ¬ ∀ (kb : KnowledgeBase) (documents : List Store), kb.active = none →
      kb.ontology.LeftAloneBy documents →
        ∃ ticket kb', kb.importAll? documents = some (ticket, kb') ∧
          ∀ sub sup, (Knowledge.mk kb.ontology kb.maxDepth).subsumes sub sup = true →
            kb'.knowledge.subsumes sub sup = true := by
  intro h
  obtain ⟨ticket, kb', himport, hsubsumes⟩ := h (.ofOntology ontology KnowledgeBase.defaultMaxDepth)
    [document] rfl leftAloneBy_document
  obtain ⟨-, -, rfl⟩ := KnowledgeBase.importAll?_eq_some_iff.mp himport
  have hlost : (ontology.merge document).subsumes KnowledgeBase.defaultMaxDepth
      (.concept (.iri ⟨"X"⟩)) (.concept (.iri ⟨"Y"⟩)) = true :=
    hsubsumes _ _ (subsumes_alone KnowledgeBase.defaultMaxDepth)
  rw [subsumes_merge] at hlost
  cases hlost

end OpenList

end GraphConformance
