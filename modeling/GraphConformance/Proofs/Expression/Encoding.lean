import GraphConformance.Proofs.Expression.Reading
import GraphConformance.Proofs.Store.Queries

/-!
# Encoded expressions are read back

`Store.Encodes` says that a store has an expression written at a term: an IRI or a literal for a
class, and for everything else a blank node that declares a form (`Store.Writes`). A node declares
some edges if it has these and no others that reading looks at (`Store.Declares`), so the form is
what the node is read as (`form?_of_writes`), and the expression at a node is unique
(`Encodes.unique`).

Reading goes down from a node to the parts of its expression, and the nodes on the way down encode
larger expressions; so no node is met again, and an expression in normal form is what is read
(`readExpression_of_encodes`). On whatever store, a node that is met for the first time has a triple
of its own: the recursion of reading nests no deeper than there are triples
(`readUpTo_eq_readExpression`).
-/

set_option autoImplicit false

namespace GraphConformance

open Vocabulary Text

/-! ## Bounds -/

namespace Literal

variable {l : Literal} {n : Nat}

/-- The value is the number in decimal, maybe with zeros before it and a plus sign before these. -/
def Denotes (l : Literal) (n : Nat) : Prop :=
  ∃ sign zeros, (sign = [] ∨ sign = ['+']) ∧
    l.value.toList = sign ++ (List.replicate zeros '0' ++ decimal n)

theorem cardinality?_of_denotes (h : l.Denotes n) (hn : n < countLimit) :
    l.cardinality? = some n := by
  obtain ⟨sign, zeros, hsign, htext⟩ := h
  have hspace : ∀ c ∈ l.value.toList, isWhiteSpace c = false := by
    intro c hc
    rw [htext] at hc
    rcases List.mem_append.mp hc with hc | hc
    · rcases hsign with rfl | rfl
      · exact absurd hc (by simp)
      · rw [List.mem_singleton.mp hc]
        decide
    · rcases List.mem_append.mp hc with hc | hc
      · rw [List.eq_of_mem_replicate hc]
        decide
      · simpa using forall_mem_decimal (!isWhiteSpace ·) (by decide) n c hc
  rw [cardinality?, trim_eq_self hspace, htext]
  exact count?_decimal hsign zeros hn

end Literal

namespace Store

variable {s : Store} {node : Term}

/-! ## Nodes and lists -/

/-- The predicates that give a bound. -/
def bounding : List Iri :=
  [Owl.cardinality, Owl.qualifiedCardinality, Owl.minCardinality, Owl.minQualifiedCardinality,
    Owl.maxCardinality, Owl.maxQualifiedCardinality]

/-- The predicates that reading looks at. -/
def structural : List Iri :=
  [Rdf.first, Rdf.rest, Owl.intersectionOf, Owl.unionOf, Owl.complementOf, Owl.oneOf,
    Owl.onProperty, Owl.someValuesFrom, Owl.allValuesFrom, Owl.hasValue, Owl.hasSelf] ++ bounding

/-- Of the edges that reading looks at, exactly the given ones leave the node, one for each of their
predicates. -/
def Declares (s : Store) (node : Term) (edges : List (Iri × Term)) : Prop :=
  ∀ p ∈ structural, ∀ o, ⟨node, .iri p, o⟩ ∈ s.triples ↔ edges.lookup p = some o

theorem Declares.object?_eq {edges : List (Iri × Term)} (h : s.Declares node edges) {p : Iri}
    (hp : p ∈ structural) : s.object? node p = edges.lookup p := by
  cases hobject : s.object? node p with
  | none =>
    rw [eq_comm, Option.eq_none_iff_forall_ne_some]
    intro o ho
    exact object?_eq_none_iff.mp hobject o ((h p hp o).mpr ho)
  | some o => exact ((h p hp o).mp (mem_outgoing.mp (exists_edge_of_object? hobject))).symm

theorem declares_of_objects {edges : List (Iri × Term)}
    (h : ∀ p ∈ structural, s.objects node p = (edges.lookup p).toList) :
    s.Declares node edges := by
  intro p hp o
  rw [← mem_objects, h p hp, Option.mem_toList]

theorem Declares.forall_object?_eq {edges : List (Iri × Term)} (h : s.Declares node edges) :
    ∀ p ∈ structural, s.object? node p = edges.lookup p :=
  fun _ => h.object?_eq

/-- The items of a list: each cell is a blank node with an item and a next cell, and no more. -/
inductive IsList (s : Store) : Term → List Term → Prop where
  | nil : IsList s (.iri Rdf.nil) []
  | cons {b : BlankNode} {item next : Term} {items : List Term}
      (h : s.Declares (.blank b) [(Rdf.first, item), (Rdf.rest, next)])
      (hrest : IsList s next items) : IsList s (.blank b) (item :: items)

theorem IsList.unique {cell : Term} {items items' : List Term} (h : s.IsList cell items)
    (h' : s.IsList cell items') : items = items' := by
  induction h generalizing items' with
  | nil =>
    cases h' with
    | nil => rfl
  | @cons b item next items hcell hrest ih =>
    cases h' with
    | @cons _ item' next' items' hcell' hrest' =>
      have hfirst := (hcell.object?_eq (p := Rdf.first) (by simp [structural])).symm.trans
        (hcell'.object?_eq (by simp [structural]))
      have hnext := (hcell.object?_eq (p := Rdf.rest) (by simp [structural])).symm.trans
        (hcell'.object?_eq (by simp [structural]))
      obtain rfl : item = item' := Option.some.inj hfirst
      obtain rfl : next = next' := Option.some.inj hnext
      rw [ih hrest']

/-- The cells passed on the way have more items, so the list is followed to its end. -/
theorem listFrom_of_isList {cell : Term} {items : List Term} (h : s.IsList cell items)
    {passed : List Term}
    (hpassed : ∀ c ∈ passed, ∃ more, s.IsList c more ∧ items.length < more.length) :
    s.listFrom passed cell = items := by
  induction h generalizing passed with
  | nil => rw [listFrom, dif_pos (Or.inl rfl)]
  | @cons b item next items hcell hrest ih =>
    have hgo : ¬(Term.blank b = .iri Rdf.nil ∨ .blank b ∈ passed) := by
      rintro (hnil | hmem)
      · exact absurd hnil (by simp)
      · obtain ⟨more, hmore, hlt⟩ := hpassed _ hmem
        rw [hmore.unique (.cons hcell hrest)] at hlt
        exact Nat.lt_irrefl _ hlt
    have hfirst : s.object? (.blank b) Rdf.first = some item :=
      hcell.object?_eq (by simp [structural])
    have hnext : s.object? (.blank b) Rdf.rest = some next :=
      hcell.object?_eq (by simp [structural])
    rw [listFrom_of_not_end hgo, hfirst, hnext, Option.elim_some, Option.elim_some, ih]
    intro c hc
    rcases List.mem_cons.mp hc with rfl | hc
    · exact ⟨item :: items, .cons hcell hrest, Nat.lt_succ_self _⟩
    · obtain ⟨more, hmore, hlt⟩ := hpassed c hc
      exact ⟨more, hmore, Nat.lt_of_succ_lt hlt⟩

theorem listItems_of_isList {head : Term} {items : List Term} (h : s.IsList head items) :
    s.listItems head = items :=
  listFrom_of_isList h (by simp)

/-! ## Forms -/

/-- The triples that write a form at a node. -/
inductive Writes (s : Store) (node : Term) : NodeForm → Prop where
  | intersection {head : Term} {items : List Term}
      (h : s.Declares node [(Owl.intersectionOf, head)]) (hlist : s.IsList head items) :
      Writes s node (.intersection items)
  | union {head : Term} {items : List Term} (h : s.Declares node [(Owl.unionOf, head)])
      (hlist : s.IsList head items) : Writes s node (.union items)
  | complement {part : Term} (h : s.Declares node [(Owl.complementOf, part)]) :
      Writes s node (.complement part)
  | enumeration {head : Term} {items : List Term} (h : s.Declares node [(Owl.oneOf, head)])
      (hlist : s.IsList head items) : Writes s node (.enumeration items)
  | some {p filler : Term}
      (h : s.Declares node [(Owl.onProperty, p), (Owl.someValuesFrom, filler)]) :
      Writes s node (.some p filler)
  | only {p filler : Term}
      (h : s.Declares node [(Owl.onProperty, p), (Owl.allValuesFrom, filler)]) :
      Writes s node (.only p filler)
  | value {p v : Term} (h : s.Declares node [(Owl.onProperty, p), (Owl.hasValue, v)]) :
      Writes s node (.value p v)
  | selfRelated {p v : Term} (h : s.Declares node [(Owl.onProperty, p), (Owl.hasSelf, v)]) :
      Writes s node (.selfRelated p)
  -- a bound is plain or qualified; reading does not look at the class that qualifies it
  | exactly {p : Term} {n : Nat} {l : Literal} {predicate : Iri}
      (hpredicate : predicate = Owl.cardinality ∨ predicate = Owl.qualifiedCardinality)
      (h : s.Declares node [(Owl.onProperty, p), (predicate, .literal l)]) (hl : l.Denotes n)
      (hn : n < countLimit) : Writes s node (.exactly p n)
  | atLeast {p : Term} {n : Nat} {l : Literal} {predicate : Iri}
      (hpredicate : predicate = Owl.minCardinality ∨ predicate = Owl.minQualifiedCardinality)
      (h : s.Declares node [(Owl.onProperty, p), (predicate, .literal l)]) (hl : l.Denotes n)
      (hn : n < countLimit) : Writes s node (.atLeast p n)
  | atMost {p : Term} {n : Nat} {l : Literal} {predicate : Iri}
      (hpredicate : predicate = Owl.maxCardinality ∨ predicate = Owl.maxQualifiedCardinality)
      (h : s.Declares node [(Owl.onProperty, p), (predicate, .literal l)]) (hl : l.Denotes n)
      (hn : n < countLimit) : Writes s node (.atMost p n)

/-- Only the predicate of the literal gives a bound. -/
theorem Declares.forall_bound?_eq {p : Term} {predicate : Iri} {l : Literal} {n : Nat}
    (h : s.Declares node [(Owl.onProperty, p), (predicate, .literal l)])
    (hl : l.cardinality? = some n) :
    ∀ q ∈ bounding, s.bound? node q = if q = predicate then some n else none := by
  intro q hq
  have hproperty : q ≠ Owl.onProperty := by
    rintro rfl
    exact absurd hq (by decide)
  rw [bound?, h.object?_eq (List.mem_append_right _ hq), List.lookup_cons,
    beq_false_of_ne hproperty]
  by_cases heq : q = predicate
  · subst heq
    simp [hl]
  · simp [List.lookup_cons, beq_false_of_ne heq, heq]

/-- What is written at a node is the form that the node is read by. -/
theorem form?_of_writes {form : NodeForm} (h : s.Writes node form) :
    s.form? node = some form := by
  -- all predicates are looked up at once; those that reading asks for before the declared one have
  -- no object
  cases h with
  | intersection h hlist =>
    rw [← listItems_of_isList hlist]
    have hobjects := h.forall_object?_eq
    simp only [structural, List.cons_append, List.forall_mem_cons] at hobjects
    simp only [form?, hobjects]
    rfl
  | union h hlist =>
    rw [← listItems_of_isList hlist]
    have hobjects := h.forall_object?_eq
    simp only [structural, List.cons_append, List.forall_mem_cons] at hobjects
    simp only [form?, hobjects]
    rfl
  | enumeration h hlist =>
    rw [← listItems_of_isList hlist]
    have hobjects := h.forall_object?_eq
    simp only [structural, List.cons_append, List.forall_mem_cons] at hobjects
    simp only [form?, hobjects]
    rfl
  | complement h =>
    have hobjects := h.forall_object?_eq
    simp only [structural, List.cons_append, List.forall_mem_cons] at hobjects
    simp only [form?, hobjects]
    rfl
  | some h =>
    have hobjects := h.forall_object?_eq
    simp only [structural, List.cons_append, List.forall_mem_cons] at hobjects
    simp only [form?, restriction?, hobjects]
    rfl
  | only h =>
    have hobjects := h.forall_object?_eq
    simp only [structural, List.cons_append, List.forall_mem_cons] at hobjects
    simp only [form?, restriction?, hobjects]
    rfl
  | value h =>
    have hobjects := h.forall_object?_eq
    simp only [structural, List.cons_append, List.forall_mem_cons] at hobjects
    simp only [form?, restriction?, hobjects]
    rfl
  | selfRelated h =>
    have hobjects := h.forall_object?_eq
    simp only [structural, List.cons_append, List.forall_mem_cons] at hobjects
    simp only [form?, restriction?, hobjects]
    rfl
  | exactly hpredicate h hl hn =>
    have hobjects := h.forall_object?_eq
    have hbounds := h.forall_bound?_eq (Literal.cardinality?_of_denotes hl hn)
    simp only [structural, List.cons_append, List.forall_mem_cons] at hobjects
    simp only [bounding, List.forall_mem_cons] at hbounds
    rcases hpredicate with rfl | rfl
    · simp only [form?, restriction?, boundOf?, hobjects, hbounds]
      rfl
    · simp only [form?, restriction?, boundOf?, hobjects, hbounds]
      rfl
  | atLeast hpredicate h hl hn =>
    have hobjects := h.forall_object?_eq
    have hbounds := h.forall_bound?_eq (Literal.cardinality?_of_denotes hl hn)
    simp only [structural, List.cons_append, List.forall_mem_cons] at hobjects
    simp only [bounding, List.forall_mem_cons] at hbounds
    rcases hpredicate with rfl | rfl
    · simp only [form?, restriction?, boundOf?, hobjects, hbounds]
      rfl
    · simp only [form?, restriction?, boundOf?, hobjects, hbounds]
      rfl
  | atMost hpredicate h hl hn =>
    have hobjects := h.forall_object?_eq
    have hbounds := h.forall_bound?_eq (Literal.cardinality?_of_denotes hl hn)
    simp only [structural, List.cons_append, List.forall_mem_cons] at hobjects
    simp only [bounding, List.forall_mem_cons] at hbounds
    rcases hpredicate with rfl | rfl
    · simp only [form?, restriction?, boundOf?, hobjects, hbounds]
      rfl
    · simp only [form?, restriction?, boundOf?, hobjects, hbounds]
      rfl

end Store

/-! ## Normal forms -/

namespace Expression

/-- At every depth, an intersection or union has several parts and none of them twice, nothing is
intersected with everything, and everything and nothing are not written as classes. -/
inductive IsNormal : Expression → Prop where
  | top : IsNormal .top
  | bottom : IsNormal .bottom
  | concept {node : Term} (hthing : node ≠ .iri Owl.thing) (hnothing : node ≠ .iri Owl.nothing) :
      IsNormal (.concept node)
  | conj {parts : List Expression} (hlength : 2 ≤ parts.length) (hnodup : parts.Nodup)
      (htop : .top ∉ parts) (hparts : ∀ e ∈ parts, IsNormal e) : IsNormal (.conj parts)
  | disj {branches : List Expression} (hlength : 2 ≤ branches.length) (hnodup : branches.Nodup)
      (hbranches : ∀ e ∈ branches, IsNormal e) : IsNormal (.disj branches)
  | compl {part : Expression} (h : IsNormal part) : IsNormal (.compl part)
  | someOf {p : Term} {filler : Expression} (h : IsNormal filler) : IsNormal (.someOf p filler)
  | onlyOf {p : Term} {filler : Expression} (h : IsNormal filler) : IsNormal (.onlyOf p filler)
  | atLeast {p : Term} {n : Nat} : IsNormal (.atLeast p n)
  | atMost {p : Term} {n : Nat} : IsNormal (.atMost p n)
  | exactly {p : Term} {n : Nat} : IsNormal (.exactly p n)
  | selfOf {p : Term} : IsNormal (.selfOf p)
  | valueOf {p v : Term} : IsNormal (.valueOf p v)
  | nominal {a : Term} : IsNormal (.nominal a)

variable {parts branches : List Expression} {e : Expression}

theorem IsNormal.of_mem_parts (h : (Expression.conj parts).IsNormal) (he : e ∈ parts) :
    e.IsNormal := by
  cases h with
  | conj hlength hnodup htop hparts => exact hparts e he

theorem IsNormal.of_mem_branches (h : (Expression.disj branches).IsNormal) (he : e ∈ branches) :
    e.IsNormal := by
  cases h with
  | disj hlength hnodup hbranches => exact hbranches e he

theorem join_eq_disj (hlength : 2 ≤ parts.length) (hnodup : parts.Nodup) :
    join parts = .disj parts := by
  rw [join, Distinct.dedup_eq_self hnodup]
  match parts, hlength with
  | _ :: _ :: _, _ => rfl

theorem meet_eq_conj (hlength : 2 ≤ parts.length) (hnodup : parts.Nodup) (htop : .top ∉ parts) :
    meet parts = .conj parts := by
  have hkept : parts.filter (!·.isTop) = parts := by
    rw [List.filter_eq_self]
    intro e he
    cases e with
    | top => exact absurd he htop
    | _ => rfl
  rw [meet, hkept, Distinct.dedup_eq_self hnodup]
  match parts, hlength with
  | _ :: _ :: _, _ => rfl

end Expression

namespace Store

variable {s : Store} {node : Term}

/-! ## Encodings -/

/-- The store has an encoding of the expression at the node. -/
inductive Encodes (s : Store) : Expression → Term → Prop where
  | top : Encodes s .top (.iri Owl.thing)
  | bottom : Encodes s .bottom (.iri Owl.nothing)
  | named (i : Iri) : Encodes s (.concept (.iri i)) (.iri i)
  | literal (l : Literal) : Encodes s (.concept (.literal l)) (.literal l)
  -- a class without a name and without a form
  | formless {b : BlankNode} (h : s.Declares (.blank b) []) :
      Encodes s (.concept (.blank b)) (.blank b)
  | conj {b : BlankNode} {parts : List Expression} {nodes : List Term}
      (h : s.Writes (.blank b) (.intersection nodes)) (hlength : parts.length = nodes.length)
      (hparts : ∀ i (hp : i < parts.length) (hn : i < nodes.length), Encodes s parts[i] nodes[i]) :
      Encodes s (.conj parts) (.blank b)
  | disj {b : BlankNode} {branches : List Expression} {nodes : List Term}
      (h : s.Writes (.blank b) (.union nodes)) (hlength : branches.length = nodes.length)
      (hbranches : ∀ i (hb : i < branches.length) (hn : i < nodes.length),
        Encodes s branches[i] nodes[i]) : Encodes s (.disj branches) (.blank b)
  | compl {b : BlankNode} {part : Expression} {node : Term}
      (h : s.Writes (.blank b) (.complement node)) (hpart : Encodes s part node) :
      Encodes s (.compl part) (.blank b)
  | someOf {b : BlankNode} {p node : Term} {filler : Expression}
      (h : s.Writes (.blank b) (.some p node)) (hfiller : Encodes s filler node) :
      Encodes s (.someOf p filler) (.blank b)
  | onlyOf {b : BlankNode} {p node : Term} {filler : Expression}
      (h : s.Writes (.blank b) (.only p node)) (hfiller : Encodes s filler node) :
      Encodes s (.onlyOf p filler) (.blank b)
  | atLeast {b : BlankNode} {p : Term} {n : Nat} (h : s.Writes (.blank b) (.atLeast p n)) :
      Encodes s (.atLeast p n) (.blank b)
  | atMost {b : BlankNode} {p : Term} {n : Nat} (h : s.Writes (.blank b) (.atMost p n)) :
      Encodes s (.atMost p n) (.blank b)
  | exactly {b : BlankNode} {p : Term} {n : Nat} (h : s.Writes (.blank b) (.exactly p n)) :
      Encodes s (.exactly p n) (.blank b)
  | selfOf {b : BlankNode} {p : Term} (h : s.Writes (.blank b) (.selfRelated p)) :
      Encodes s (.selfOf p) (.blank b)
  | valueOf {b : BlankNode} {p v : Term} (h : s.Writes (.blank b) (.value p v)) :
      Encodes s (.valueOf p v) (.blank b)
  -- the set of one individual enumerates it
  | nominal {b : BlankNode} {a : Term} (h : s.Writes (.blank b) (.enumeration [a])) :
      Encodes s (.nominal a) (.blank b)

theorem form?_of_declares_nil (h : s.Declares node []) : s.form? node = none := by
  have hobjects := h.forall_object?_eq
  simp only [structural, List.cons_append, List.forall_mem_cons] at hobjects
  simp only [form?, hobjects]
  rfl

/-- The expression has the shape of the form, and its parts are encoded at the nodes of the form. -/
def Fits (s : Store) (b : BlankNode) (e : Expression) : Option NodeForm → Prop
  | none => e = .concept (.blank b)
  | some (.intersection nodes) => ∃ parts : List Expression, e = .conj parts ∧
      parts.length = nodes.length ∧
      ∀ i (hp : i < parts.length) (hn : i < nodes.length), s.Encodes parts[i] nodes[i]
  | some (.union nodes) => ∃ branches : List Expression, e = .disj branches ∧
      branches.length = nodes.length ∧
      ∀ i (hb : i < branches.length) (hn : i < nodes.length), s.Encodes branches[i] nodes[i]
  | some (.complement node) => ∃ part, e = .compl part ∧ s.Encodes part node
  | some (.some p node) => ∃ filler, e = .someOf p filler ∧ s.Encodes filler node
  | some (.only p node) => ∃ filler, e = .onlyOf p filler ∧ s.Encodes filler node
  | some (.value p v) => e = .valueOf p v
  | some (.selfRelated p) => e = .selfOf p
  | some (.exactly p n) => e = .exactly p n
  | some (.atLeast p n) => e = .atLeast p n
  | some (.atMost p n) => e = .atMost p n
  | some (.enumeration individuals) => individuals.map .nominal = [e]

/-- An expression encoded at a blank node has the shape of the form that the node declares. -/
theorem Encodes.fits {e : Expression} {b : BlankNode} {form : Option NodeForm}
    (h : s.Encodes e (.blank b)) (hform : s.form? (.blank b) = form) : s.Fits b e form := by
  rw [← hform]
  cases h with
  | formless h =>
    rw [form?_of_declares_nil h]
    rfl
  | conj h hlength hparts =>
    rw [form?_of_writes h]
    exact ⟨_, rfl, hlength, hparts⟩
  | disj h hlength hbranches =>
    rw [form?_of_writes h]
    exact ⟨_, rfl, hlength, hbranches⟩
  | compl h hpart =>
    rw [form?_of_writes h]
    exact ⟨_, rfl, hpart⟩
  | someOf h hfiller =>
    rw [form?_of_writes h]
    exact ⟨_, rfl, hfiller⟩
  | onlyOf h hfiller =>
    rw [form?_of_writes h]
    exact ⟨_, rfl, hfiller⟩
  | atLeast h => rw [form?_of_writes h]; rfl
  | atMost h => rw [form?_of_writes h]; rfl
  | exactly h => rw [form?_of_writes h]; rfl
  | selfOf h => rw [form?_of_writes h]; rfl
  | valueOf h => rw [form?_of_writes h]; rfl
  | nominal h => rw [form?_of_writes h]; rfl

/-- What an expression in normal form encoded at an IRI is. -/
theorem Encodes.eq_named {e : Expression} {i : Iri} (h : s.Encodes e (.iri i))
    (hnormal : e.IsNormal) : e = .named i := by
  cases h with
  | top => rfl
  | bottom => rfl
  | named =>
    cases hnormal with
    | concept hthing hnothing =>
      rw [Expression.named, if_neg (fun h => hthing (by rw [h])),
        if_neg (fun h => hnothing (by rw [h]))]

/-- At most one expression in normal form is encoded at a node. -/
theorem Encodes.unique {e e' : Expression} (h : s.Encodes e node) (hnormal : e.IsNormal)
    (h' : s.Encodes e' node) (hnormal' : e'.IsNormal) : e = e' := by
  -- the first encoding fixes the form of the node, and the other expression fits the same form
  induction h generalizing e' with
  | top => exact (h'.eq_named hnormal').symm
  | bottom => exact (h'.eq_named hnormal').symm
  | named i => exact ((Encodes.named (s := s) i).eq_named hnormal).trans (h'.eq_named hnormal').symm
  | literal l =>
    cases h' with
    | literal => rfl
  | formless h => exact (h'.fits (form?_of_declares_nil h)).symm
  | conj h hlength hparts ih =>
    obtain ⟨parts', rfl, hlength', hparts'⟩ := h'.fits (form?_of_writes h)
    congr 1
    apply List.ext_getElem (hlength.trans hlength'.symm)
    intro i hi hi'
    exact ih i hi (hlength ▸ hi) (hnormal.of_mem_parts (List.getElem_mem hi))
      (hparts' i hi' (hlength ▸ hi)) (hnormal'.of_mem_parts (List.getElem_mem hi'))
  | disj h hlength hbranches ih =>
    obtain ⟨branches', rfl, hlength', hbranches'⟩ := h'.fits (form?_of_writes h)
    congr 1
    apply List.ext_getElem (hlength.trans hlength'.symm)
    intro i hi hi'
    exact ih i hi (hlength ▸ hi) (hnormal.of_mem_branches (List.getElem_mem hi))
      (hbranches' i hi' (hlength ▸ hi)) (hnormal'.of_mem_branches (List.getElem_mem hi'))
  | compl h hpart ih =>
    obtain ⟨part', rfl, hpart'⟩ := h'.fits (form?_of_writes h)
    cases hnormal with
    | compl hn =>
      cases hnormal' with
      | compl hn' => rw [ih hn hpart' hn']
  | someOf h hfiller ih =>
    obtain ⟨filler', rfl, hfiller'⟩ := h'.fits (form?_of_writes h)
    cases hnormal with
    | someOf hn =>
      cases hnormal' with
      | someOf hn' => rw [ih hn hfiller' hn']
  | onlyOf h hfiller ih =>
    obtain ⟨filler', rfl, hfiller'⟩ := h'.fits (form?_of_writes h)
    cases hnormal with
    | onlyOf hn =>
      cases hnormal' with
      | onlyOf hn' => rw [ih hn hfiller' hn']
  | atLeast h => exact (h'.fits (form?_of_writes h)).symm
  | atMost h => exact (h'.fits (form?_of_writes h)).symm
  | exactly h => exact (h'.fits (form?_of_writes h)).symm
  | selfOf h => exact (h'.fits (form?_of_writes h)).symm
  | valueOf h => exact (h'.fits (form?_of_writes h)).symm
  | nominal h => exact List.singleton_inj.mp (h'.fits (form?_of_writes h))

/-! ## Reading back -/

/-- The nodes encode expressions in normal form that are larger than the given one. -/
def Encloses (s : Store) (inside : List Term) (e : Expression) : Prop :=
  ∀ x ∈ inside, ∃ larger, s.Encodes larger x ∧ larger.IsNormal ∧ sizeOf e < sizeOf larger

namespace Encloses

variable {inside : List Term} {e part : Expression}

/-- A node that encodes the expression itself is not among them. -/
theorem not_mem (hinside : s.Encloses inside e) (h : s.Encodes e node) (hnormal : e.IsNormal) :
    node ∉ inside := by
  intro hmem
  obtain ⟨larger, hlarger, hnormal', hlt⟩ := hinside node hmem
  rw [h.unique hnormal hlarger hnormal'] at hlt
  exact Nat.lt_irrefl _ hlt

/-- With a node that encodes the expression, they enclose its parts. -/
theorem cons (hinside : s.Encloses inside e) (h : s.Encodes e node) (hnormal : e.IsNormal)
    (hlt : sizeOf part < sizeOf e) : s.Encloses (node :: inside) part := by
  intro x hx
  rcases List.mem_cons.mp hx with rfl | hx
  · exact ⟨e, h, hnormal, hlt⟩
  · obtain ⟨larger, hlarger, hnormal', hlt'⟩ := hinside x hx
    exact ⟨larger, hlarger, hnormal', Nat.lt_trans hlt hlt'⟩

end Encloses

theorem readExpression_of_writes {inside : List Term} {b : BlankNode} {form : NodeForm}
    (hnew : .blank b ∉ inside) (h : s.Writes (.blank b) form) :
    s.readExpression inside (.blank b) =
      form.toExpression (s.readExpression (.blank b :: inside)) :=
  readExpression_of_form? hnew (form?_of_writes h)

/-- An expression in normal form is what the node at which it is encoded is read as. -/
theorem readExpression_of_encodes {e : Expression} (h : s.Encodes e node) (hnormal : e.IsNormal)
    {inside : List Term} (hinside : s.Encloses inside e) : s.readExpression inside node = e := by
  -- no node under way is met again: each encodes a larger expression than this one
  induction h generalizing inside with
  | top => rw [readExpression_iri]; rfl
  | bottom => rw [readExpression_iri]; rfl
  | named i => rw [readExpression_iri, ← (Encodes.named (s := s) i).eq_named hnormal]
  | literal l => exact readExpression_literal l
  | formless h => exact readExpression_of_form?_eq_none (form?_of_declares_nil h)
  | @conj b parts nodes h hlength hparts ih =>
    have hself := Encodes.conj h hlength hparts
    have hread : nodes.map (s.readExpression (.blank b :: inside)) = parts := by
      apply List.ext_getElem (by rw [List.length_map, hlength])
      intro i hi hp
      have hmem : parts[i] ∈ parts := List.getElem_mem hp
      have hlt : sizeOf parts[i] < sizeOf (Expression.conj parts) := by
        have := List.sizeOf_lt_of_mem hmem
        rw [Expression.conj.sizeOf_spec]
        omega
      rw [List.getElem_map]
      exact ih i hp (hlength ▸ hp) (hnormal.of_mem_parts hmem) (hinside.cons hself hnormal hlt)
    rw [readExpression_of_writes (hinside.not_mem hself hnormal) h,
      NodeForm.toExpression, hread]
    -- building the intersection leaves parts in normal form as they are
    cases hnormal with
    | conj hlength hnodup htop _ => exact Expression.meet_eq_conj hlength hnodup htop
  | @disj b branches nodes h hlength hbranches ih =>
    have hself := Encodes.disj h hlength hbranches
    have hread : nodes.map (s.readExpression (.blank b :: inside)) = branches := by
      apply List.ext_getElem (by rw [List.length_map, hlength])
      intro i hi hp
      have hmem : branches[i] ∈ branches := List.getElem_mem hp
      have hlt : sizeOf branches[i] < sizeOf (Expression.disj branches) := by
        have := List.sizeOf_lt_of_mem hmem
        rw [Expression.disj.sizeOf_spec]
        omega
      rw [List.getElem_map]
      exact ih i hp (hlength ▸ hp) (hnormal.of_mem_branches hmem) (hinside.cons hself hnormal hlt)
    rw [readExpression_of_writes (hinside.not_mem hself hnormal) h,
      NodeForm.toExpression, hread]
    cases hnormal with
    | disj hlength hnodup _ => exact Expression.join_eq_disj hlength hnodup
  | compl h hpart ih =>
    have hself := Encodes.compl h hpart
    rw [readExpression_of_writes (hinside.not_mem hself hnormal) h,
      NodeForm.toExpression]
    cases id hnormal with
    | compl hn => rw [ih hn (hinside.cons hself hnormal (by simp))]
  | @someOf b p node filler h hfiller ih =>
    have hself := Encodes.someOf h hfiller
    have hlt : sizeOf filler < sizeOf (Expression.someOf p filler) := by
      rw [Expression.someOf.sizeOf_spec]
      omega
    rw [readExpression_of_writes (hinside.not_mem hself hnormal) h,
      NodeForm.toExpression]
    cases id hnormal with
    | someOf hn => rw [ih hn (hinside.cons hself hnormal hlt)]
  | @onlyOf b p node filler h hfiller ih =>
    have hself := Encodes.onlyOf h hfiller
    have hlt : sizeOf filler < sizeOf (Expression.onlyOf p filler) := by
      rw [Expression.onlyOf.sizeOf_spec]
      omega
    rw [readExpression_of_writes (hinside.not_mem hself hnormal) h,
      NodeForm.toExpression]
    cases id hnormal with
    | onlyOf hn => rw [ih hn (hinside.cons hself hnormal hlt)]
  | atLeast h => exact readExpression_of_writes (hinside.not_mem (.atLeast h) hnormal) h
  | atMost h => exact readExpression_of_writes (hinside.not_mem (.atMost h) hnormal) h
  | exactly h => exact readExpression_of_writes (hinside.not_mem (.exactly h) hnormal) h
  | selfOf h => exact readExpression_of_writes (hinside.not_mem (.selfOf h) hnormal) h
  | valueOf h => exact readExpression_of_writes (hinside.not_mem (.valueOf h) hnormal) h
  | nominal h => exact readExpression_of_writes (hinside.not_mem (.nominal h) hnormal) h

/-! ## Reading ends -/

/-- Follow a list for so many cells, whatever stands beyond. -/
def listUpTo (s : Store) (beyond : List Term) : Nat → List Term → Term → List Term
  | 0, _, _ => beyond
  | cells + 1, passed, cell =>
    if cell = .iri Rdf.nil ∨ cell ∈ passed then []
    else (s.object? cell Rdf.first).elim [] fun item =>
      item :: (s.object? cell Rdf.rest).elim [] (s.listUpTo beyond cells (cell :: passed))

/-- Read a node with so many nodes inside each other, whatever stands beyond. -/
def readUpTo (s : Store) (beyond : Term → Expression) : Nat → List Term → Term → Expression
  | 0, _, node => beyond node
  | nodes + 1, inside, node =>
    match node with
    | .iri i => .named i
    | .literal l => .concept (.literal l)
    | .blank b =>
      if .blank b ∈ inside then .concept (.blank b)
      else (s.form? (.blank b)).elim (.concept (.blank b)) fun form =>
        form.toExpression (s.readUpTo beyond nodes (.blank b :: inside))

/-- Each cell that is passed has a triple of its own. -/
theorem listUpTo_eq_listFrom {beyond passed : List Term} {cells : Nat} {cell : Term}
    (h : s.remaining passed < cells) : s.listUpTo beyond cells passed cell =
      s.listFrom passed cell := by
  induction cells generalizing passed cell with
  | zero => exact absurd h (Nat.not_lt_zero _)
  | succ cells ih =>
    rw [listUpTo]
    split
    · rename_i hend
      rw [listFrom, dif_pos hend]
    · rename_i hgo
      rw [listFrom_of_not_end hgo]
      cases hfirst : s.object? cell Rdf.first with
      | none => rfl
      | some item =>
        have hless := remaining_lt (fun hmem => hgo (Or.inr hmem)) (exists_edge_of_object? hfirst)
        rw [Option.elim_some, Option.elim_some]
        cases s.object? cell Rdf.rest with
        | none => rfl
        | some next => rw [Option.elim_some, Option.elim_some, ih (by omega)]

/-- Each node that is read inside others has a triple of its own. -/
theorem readUpTo_eq_readExpression {beyond : Term → Expression} {nodes : Nat} {inside : List Term}
    (h : s.remaining inside < nodes) :
    s.readUpTo beyond nodes inside = s.readExpression inside := by
  induction nodes generalizing inside with
  | zero => exact absurd h (Nat.not_lt_zero _)
  | succ nodes ih =>
    funext node
    cases node with
    | iri i => rw [readUpTo, readExpression_iri]
    | literal l => rw [readUpTo, readExpression_literal]
    | blank b =>
      rw [readUpTo]
      split
      · rename_i hmem
        rw [readExpression_of_mem hmem]
      · rename_i hnew
        cases hform : s.form? (.blank b) with
        | none => rw [Option.elim_none, readExpression_of_form?_eq_none hform]
        | some form =>
          obtain ⟨edge, hedge⟩ := exists_edge_of_form? hform
          have hless := remaining_lt hnew hedge
          rw [Option.elim_some, readExpression_of_form? hnew hform, ih (by omega)]

theorem remaining_nil : s.remaining [] = s.size := by
  rw [remaining, size, List.countP_eq_length]
  simp

end Store

/-- An expression in normal form is read back wherever a store has an encoding of it. On every store
reading ends: neither nodes inside each other nor the cells of a list are more than its triples, so
what stands beyond is never reached. -/
theorem expression_of_encodes (s : Store) (node : Term) :
    (∀ e, e.IsNormal → s.Encodes e node → s.expression node = e) ∧
      (∀ nodes > s.size, ∀ beyond, s.readUpTo beyond nodes [] node = s.expression node) ∧
      ∀ cells > s.size, ∀ beyond, s.listUpTo beyond cells [] node = s.listItems node := by
  refine ⟨?_, ?_, ?_⟩
  · intro e hnormal h
    exact Store.readExpression_of_encodes h hnormal (by simp [Store.Encloses])
  · intro nodes hnodes beyond
    rw [Store.readUpTo_eq_readExpression (by rwa [Store.remaining_nil])]
    rfl
  · intro cells hcells beyond
    exact Store.listUpTo_eq_listFrom (by rwa [Store.remaining_nil])

/-! ### A union of two descriptions

The node is the union of what is no A and of what has at least two values under p that are an A. -/

namespace WrittenUnion

def two : Literal := ⟨"2", .typed Xsd.integer⟩

theorem denotes_two : two.Denotes 2 := ⟨[], 0, Or.inl rfl, by simp [two, decimal, digitChar]⟩

def store : Store := .ofList
  [⟨.blank ⟨0, none⟩, .iri Owl.unionOf, .blank ⟨1, none⟩⟩,
    ⟨.blank ⟨1, none⟩, .iri Rdf.first, .blank ⟨3, none⟩⟩,
    ⟨.blank ⟨1, none⟩, .iri Rdf.rest, .blank ⟨2, none⟩⟩,
    ⟨.blank ⟨2, none⟩, .iri Rdf.first, .blank ⟨4, none⟩⟩,
    ⟨.blank ⟨2, none⟩, .iri Rdf.rest, .iri Rdf.nil⟩,
    ⟨.blank ⟨3, none⟩, .iri Owl.complementOf, .iri ⟨"A"⟩⟩,
    ⟨.blank ⟨4, none⟩, .iri Owl.onProperty, .iri ⟨"p"⟩⟩,
    ⟨.blank ⟨4, none⟩, .iri Owl.minQualifiedCardinality, .literal two⟩,
    ⟨.blank ⟨4, none⟩, .iri ⟨"http://www.w3.org/2002/07/owl#onClass"⟩, .iri ⟨"A"⟩⟩]

def expression : Expression :=
  .disj [.compl (.concept (.iri ⟨"A"⟩)), .atLeast (.iri ⟨"p"⟩) 2]

theorem isNormal_expression : expression.IsNormal := by
  refine .disj (by decide) (by decide) ?_
  rw [List.forall_mem_cons, List.forall_mem_singleton]
  exact ⟨.compl (.concept (by decide) (by decide)), .atLeast⟩

theorem isList_branches :
    store.IsList (.blank ⟨1, none⟩) [.blank ⟨3, none⟩, .blank ⟨4, none⟩] := by
  have hcell : store.Declares (.blank ⟨1, none⟩)
      [(Rdf.first, .blank ⟨3, none⟩), (Rdf.rest, .blank ⟨2, none⟩)] :=
    Store.declares_of_objects (by decide +kernel)
  have hlast : store.Declares (.blank ⟨2, none⟩)
      [(Rdf.first, .blank ⟨4, none⟩), (Rdf.rest, .iri Rdf.nil)] :=
    Store.declares_of_objects (by decide +kernel)
  exact .cons hcell (.cons hlast .nil)

theorem encodes_expression : store.Encodes expression (.blank ⟨0, none⟩) := by
  have hunion : store.Writes (.blank ⟨0, none⟩) (.union [.blank ⟨3, none⟩, .blank ⟨4, none⟩]) :=
    .union (Store.declares_of_objects (by decide +kernel)) isList_branches
  have hcomplement : store.Writes (.blank ⟨3, none⟩) (.complement (.iri ⟨"A"⟩)) :=
    .complement (Store.declares_of_objects (by decide +kernel))
  have hbound : store.Writes (.blank ⟨4, none⟩) (.atLeast (.iri ⟨"p"⟩) 2) :=
    .atLeast (l := two) (Or.inr rfl) (Store.declares_of_objects (by decide +kernel)) denotes_two
      (by decide)
  apply Store.Encodes.disj hunion rfl
  intro i hb hn
  match i with
  | 0 => exact .compl hcomplement (.named _)
  | 1 => exact .atLeast hbound

theorem expression_union : store.expression (.blank ⟨0, none⟩) = expression :=
  (expression_of_encodes store (.blank ⟨0, none⟩)).1 expression isNormal_expression
    encodes_expression

end WrittenUnion

end GraphConformance
