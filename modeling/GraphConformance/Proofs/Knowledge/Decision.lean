import GraphConformance.Proofs.Expression.Reading
import GraphConformance.Proofs.Knowledge.Closure
import GraphConformance.Proofs.Knowledge.Derivation
import Mathlib.Data.Finset.Prod
import Mathlib.Order.Monotone.Basic

/-!
# Subsumption decides derivability

`Store.entailsFreely` is the recursion of subsumption without the path: only the number of nested
rounds bounds it. Refusing the pairs on the path loses nothing (`subsumes_eq_entailsFreely`). Where
a pair needs a number of rounds, the pairs that its rule asks for need fewer; so a derivation by as
few rounds as possible never comes back to a pair that it is deciding.

All pairs that are ever asked for are made of a finite number of expressions (`Store.pool`), since
rules go to parts of expressions and to what the store tells (`Store.Closed`). So as many rounds as
there are such pairs accept all that more rounds accept, and that is what the rules derive
(`entailsFreely_iff_derives`).
-/

set_option autoImplicit false

namespace GraphConformance

open Vocabulary

/-! ## Parts of expressions -/

namespace Expression

/-- What an expression is directly made of. A given value counts as the set of that value. -/
def parts : Expression → List Expression
  | conj es => es
  | disj es => es
  | compl e => [e]
  | someOf _ e => [e]
  | onlyOf _ e => [e]
  | valueOf _ v => [nominal v]
  | _ => []

theorem sizeOf_lt_of_mem_parts {e d : Expression} (h : d ∈ e.parts) : sizeOf d < sizeOf e := by
  cases e with
  | conj es =>
    have : sizeOf d < sizeOf es := List.sizeOf_lt_of_mem h
    rw [conj.sizeOf_spec]
    omega
  | disj es =>
    have : sizeOf d < sizeOf es := List.sizeOf_lt_of_mem h
    rw [disj.sizeOf_spec]
    omega
  | compl e => rw [List.mem_singleton.mp h, compl.sizeOf_spec]; omega
  | someOf p e => rw [List.mem_singleton.mp h, someOf.sizeOf_spec]; omega
  | onlyOf p e => rw [List.mem_singleton.mp h, onlyOf.sizeOf_spec]; omega
  | valueOf p v =>
    have : 0 < sizeOf p := by cases p <;> exact Nat.add_pos_left Nat.one_pos _
    rw [List.mem_singleton.mp h, valueOf.sizeOf_spec, nominal.sizeOf_spec]
    omega
  | _ => exact absurd h (by simp [parts])

/-- The expressions inside an expression, itself included. -/
def components (e : Expression) : List Expression :=
  e :: e.parts.attach.flatMap fun d => components d.1
termination_by sizeOf e
decreasing_by exact sizeOf_lt_of_mem_parts d.2

theorem mem_components {e d : Expression} :
    d ∈ e.components ↔ d = e ∨ ∃ part ∈ e.parts, d ∈ part.components := by
  rw [components]
  simp

theorem self_mem_components (e : Expression) : e ∈ e.components :=
  mem_components.mpr (Or.inl rfl)

/-- The parts of what is inside an expression are inside it. -/
theorem mem_components_of_mem_parts {e d part : Expression} (hd : d ∈ e.components)
    (h : part ∈ d.parts) : part ∈ e.components := by
  rw [mem_components] at hd ⊢
  rcases hd with rfl | ⟨inner, hinner, hd⟩
  · exact Or.inr ⟨part, h, part.self_mem_components⟩
  · have := sizeOf_lt_of_mem_parts hinner
    exact Or.inr ⟨inner, hinner, mem_components_of_mem_parts hd h⟩
termination_by sizeOf e

end Expression

namespace Store

variable {s : Store} {sub sup : Expression}

/-! ## Without the path -/

/-- Whether containment follows within a number of nested rounds, whatever is being decided. -/
def entailsFreely (s : Store) : Nat → Expression → Expression → Bool
  | 0, sub, sup => holdsAnyway sub sup
  | rounds + 1, sub, sup =>
    holdsAnyway sub sup || s.step (s.entailsFreely rounds) sub sup

theorem step_mono {ask ask' : Expression → Expression → Bool}
    (hask : ∀ e f, ask e f = true → ask' e f = true) (h : s.step ask sub sup = true) :
    s.step ask' sub sup = true :=
  step_iff.mpr ((step_iff.mp h).mono fun _ _ q _ => hask q.1 q.2)

theorem entailsFreely_succ_iff {n : Nat} : s.entailsFreely (n + 1) sub sup = true ↔
    holdsAnyway sub sup = true ∨ s.step (s.entailsFreely n) sub sup = true := by
  rw [entailsFreely, Bool.or_eq_true]

theorem entailsFreely_of_holdsAnyway (h : holdsAnyway sub sup = true) (n : Nat) :
    s.entailsFreely n sub sup = true := by
  cases n with
  | zero => exact h
  | succ n => exact entailsFreely_succ_iff.mpr (Or.inl h)

theorem entails_of_holdsAnyway (h : holdsAnyway sub sup = true) (n : Nat)
    (path : List (Expression × Expression)) : s.entails n path sub sup = true := by
  cases n with
  | zero => exact h
  | succ n => exact entails_succ_iff.mpr (Or.inl h)

/-- More rounds accept no less. -/
theorem entailsFreely_mono {m n : Nat} (hmn : m ≤ n) (h : s.entailsFreely m sub sup = true) :
    s.entailsFreely n sub sup = true := by
  induction m generalizing n sub sup with
  | zero => exact entailsFreely_of_holdsAnyway h n
  | succ m ih =>
    obtain ⟨n, rfl⟩ : ∃ k, n = k + 1 := ⟨n - 1, by omega⟩
    rw [entailsFreely_succ_iff] at h ⊢
    exact h.imp_right (step_mono fun _ _ => ih (by omega))

theorem entails_mono {m n : Nat} {path : List (Expression × Expression)} (hmn : m ≤ n)
    (h : s.entails m path sub sup = true) : s.entails n path sub sup = true := by
  induction m generalizing n path sub sup with
  | zero => exact entails_of_holdsAnyway h n path
  | succ m ih =>
    obtain ⟨n, rfl⟩ : ∃ k, n = k + 1 := ⟨n - 1, by omega⟩
    rw [entails_succ_iff] at h ⊢
    exact h.imp_right (And.imp_right (step_mono fun _ _ => ih (by omega)))

/-- The path only takes answers away. -/
theorem entailsFreely_of_entails {n : Nat} {path : List (Expression × Expression)}
    (h : s.entails n path sub sup = true) : s.entailsFreely n sub sup = true := by
  induction n generalizing path sub sup with
  | zero => exact h
  | succ n ih =>
    rw [entailsFreely_succ_iff]
    rcases entails_succ_iff.mp h with h | ⟨-, h⟩
    · exact Or.inl h
    · exact Or.inr (step_mono (fun _ _ => ih) h)

/-- What follows in a number of rounds follows past every path of pairs that need more rounds. -/
theorem entails_of_entailsFreely {n : Nat} {path : List (Expression × Expression)}
    (hpath : ∀ q ∈ path, s.entailsFreely n q.1 q.2 ≠ true)
    (h : s.entailsFreely n sub sup = true) : s.entails n path sub sup = true := by
  induction n generalizing path sub sup with
  | zero => exact h
  | succ n ih =>
    have hfewer : ∀ q ∈ path, s.entailsFreely n q.1 q.2 ≠ true := by
      intro q hq hn
      exact hpath q hq (entailsFreely_mono n.le_succ hn)
    by_cases hearlier : s.entailsFreely n sub sup = true
    · exact entails_mono n.le_succ (ih hfewer hearlier)
    · -- the pair itself needs all the rounds, so it may join the path
      have hjoined : ∀ q ∈ (sub, sup) :: path, s.entailsFreely n q.1 q.2 ≠ true :=
        List.forall_mem_cons.mpr ⟨hearlier, hfewer⟩
      rw [entails_succ_iff]
      rcases entailsFreely_succ_iff.mp h with h' | h'
      · exact Or.inl h'
      · refine Or.inr ⟨?_, step_mono (fun _ _ => ih hjoined) h'⟩
        intro hmem
        exact hpath _ hmem h

/-- Subsumption answers as the recursion without the path. -/
theorem subsumes_eq_entailsFreely (s : Store) (maxDepth : Nat) (sub sup : Expression) :
    s.subsumes maxDepth sub sup = s.entailsFreely (maxDepth + 1) sub sup := by
  rw [Bool.eq_iff_iff]
  constructor
  · exact entailsFreely_of_entails
  · exact entails_of_entailsFreely (by simp)

/-- Rounds accept only what the rules derive. -/
theorem derives_of_entailsFreely {n : Nat} (h : s.entailsFreely n sub sup = true) :
    s.Derives sub sup := by
  induction n generalizing sub sup with
  | zero => exact .of_holdsAnyway h
  | succ n ih =>
    rcases entailsFreely_succ_iff.mp h with h | h
    · exact .of_holdsAnyway h
    · exact .of_step (fun _ _ => ih) h

/-! ## Finitely many expressions -/

/-- The rules do not lead out of the expressions of a list. -/
structure Closed (s : Store) (U : List Expression) : Prop where
  part : ∀ {e d : Expression}, e ∈ U → d ∈ e.parts → d ∈ U
  told : ∀ {c : Term} {e : Expression}, e ∈ s.superClasses c ++ s.equivalentClasses c → e ∈ U
  type : ∀ {a t : Term}, t ∈ s.types a → .concept t ∈ U

theorem Closed.premises {U : List Expression} (hU : s.Closed U)
    {premises : List (Expression × Expression)} (hrule : s.Rule premises sub sup) (hsub : sub ∈ U)
    (hsup : sup ∈ U) : ∀ q ∈ premises, q.1 ∈ U ∧ q.2 ∈ U := by
  cases hrule with
  | leftUnion =>
    rw [List.forall_mem_map]
    intro e he
    exact ⟨hU.part hsub he, hsup⟩
  | rightIntersection =>
    rw [List.forall_mem_map]
    intro e he
    exact ⟨hsub, hU.part hsup he⟩
  | rightUnion _ he => simpa using ⟨hsub, hU.part hsup he⟩
  | definition _ he => simpa using ⟨hsub, hU.told (List.mem_append_right _ he)⟩
  | someOf_someOf => simpa using ⟨hU.part hsub List.mem_cons_self, hU.part hsup List.mem_cons_self⟩
  | someOf_valueOf => simpa using ⟨hU.part hsub List.mem_cons_self, hU.part hsup List.mem_cons_self⟩
  | onlyOf_onlyOf => simpa using ⟨hU.part hsub List.mem_cons_self, hU.part hsup List.mem_cons_self⟩
  -- the two sides change places
  | compl_compl => simpa using ⟨hU.part hsup List.mem_cons_self, hU.part hsub List.mem_cons_self⟩
  | part _ he => simpa using ⟨hU.part hsub he, hsup⟩
  | told _ he => simpa using ⟨hU.told he, hsup⟩
  | type _ ht => simpa using ⟨hU.type ht, hsup⟩
  | _ => simp

/-- The pairs of expressions of a list that are accepted within a number of rounds. -/
def accepted (s : Store) (U : List Expression) (n : Nat) : Finset (Expression × Expression) :=
  (U.toFinset ×ˢ U.toFinset).filter fun q => s.entailsFreely n q.1 q.2 = true

variable {U : List Expression}

theorem mem_accepted {n : Nat} {q : Expression × Expression} :
    q ∈ s.accepted U n ↔ (q.1 ∈ U ∧ q.2 ∈ U) ∧ s.entailsFreely n q.1 q.2 = true := by
  rw [accepted, Finset.mem_filter, Finset.mem_product, List.mem_toFinset, List.mem_toFinset]

theorem accepted_subset {m n : Nat} (hmn : m ≤ n) : s.accepted U m ⊆ s.accepted U n := by
  intro q hq
  rw [mem_accepted] at hq ⊢
  exact ⟨hq.1, entailsFreely_mono hmn hq.2⟩

theorem card_accepted_le (n : Nat) : (s.accepted U n).card ≤ U.length * U.length :=
  calc (s.accepted U n).card ≤ (U.toFinset ×ˢ U.toFinset).card := Finset.card_filter_le _ _
    _ = U.toFinset.card * U.toFinset.card := Finset.card_product _ _
    _ ≤ U.length * U.length := Nat.mul_le_mul (List.toFinset_card_le U) (List.toFinset_card_le U)

namespace Closed

/-- A round that accepts no new pair of the list is followed by no round that does. -/
theorem accepted_succ (hU : s.Closed U) {n : Nat} (h : s.accepted U n = s.accepted U (n + 1)) :
    s.accepted U (n + 1) = s.accepted U (n + 2) := by
  apply Finset.Subset.antisymm (accepted_subset (Nat.le_succ _))
  intro q hq
  rw [mem_accepted, entailsFreely_succ_iff] at hq ⊢
  obtain ⟨hmem, hq⟩ := hq
  refine ⟨hmem, hq.imp_right fun hstep => ?_⟩
  rw [step_iff] at hstep ⊢
  apply hstep.mono
  intro premises hrule p hp hask
  have haccepted : p ∈ s.accepted U (n + 1) :=
    mem_accepted.mpr ⟨hU.premises hrule hmem.1 hmem.2 p hp, hask⟩
  rw [← h] at haccepted
  exact (mem_accepted.mp haccepted).2

/-- As many rounds as there are pairs accept what more rounds accept. -/
theorem accepted_eq (hU : s.Closed U) {n : Nat} (hn : U.length * U.length ≤ n) :
    s.accepted U n = s.accepted U (U.length * U.length) := by
  have hmono : Monotone fun n => (s.accepted U n).card := by
    intro m n hmn
    exact Finset.card_le_card (accepted_subset hmn)
  have hstable : ∀ m, (s.accepted U m).card = (s.accepted U (m + 1)).card →
      (s.accepted U (m + 1)).card = (s.accepted U (m + 2)).card := by
    intro m hcard
    have hsame : s.accepted U m = s.accepted U (m + 1) :=
      Finset.eq_of_subset_of_card_le (accepted_subset m.le_succ) hcard.ge
    rw [hU.accepted_succ hsame]
  have hcard := Nat.stabilises_of_monotone hmono card_accepted_le hstable hn
  exact (Finset.eq_of_subset_of_card_le (accepted_subset hn) hcard.le).symm

/-- From that number on, rounds accept what the rules derive. -/
theorem entailsFreely_iff_derives (hU : s.Closed U) (hsub : sub ∈ U) (hsup : sup ∈ U) {n : Nat}
    (hn : U.length * U.length ≤ n) : s.entailsFreely n sub sup = true ↔ s.Derives sub sup := by
  constructor
  · exact derives_of_entailsFreely
  · intro h
    -- by induction on the derivation, for the pairs of the list
    suffices hlist : sub ∈ U → sup ∈ U → s.entailsFreely n sub sup = true from hlist hsub hsup
    clear hsub hsup
    induction h with
    | refl e => exact fun _ _ => entailsFreely_of_holdsAnyway (by simp [holdsAnyway]) n
    | top e =>
      exact fun _ _ => entailsFreely_of_holdsAnyway (by simp [holdsAnyway, Expression.isTop]) n
    | bottom e => exact fun _ _ => entailsFreely_of_holdsAnyway (by simp [holdsAnyway]) n
    | @rule premises sub sup hrule _ ih =>
      intro hsub hsup
      have hpremises := hU.premises hrule hsub hsup
      have hnext : s.entailsFreely (n + 1) sub sup = true := by
        rw [entailsFreely_succ_iff]
        refine Or.inr (step_of_rule hrule ?_)
        intro q hq
        exact ih q hq (hpremises q hq).1 (hpremises q hq).2
      have haccepted : (sub, sup) ∈ s.accepted U (n + 1) := mem_accepted.mpr ⟨⟨hsub, hsup⟩, hnext⟩
      rw [hU.accepted_eq (Nat.le_succ_of_le hn), ← hU.accepted_eq hn] at haccepted
      exact (mem_accepted.mp haccepted).2

end Closed

/-- The nodes of triples. -/
def nodes (s : Store) : List Term := s.triples.map Triple.subject ++ s.triples.map Triple.object

/-- The expressions that the rules for two expressions lead to: what is inside them or inside what a
node is read as, and the classes of nodes. -/
def pool (s : Store) (sub sup : Expression) : List Expression :=
  (sub :: sup :: (s.nodes.map s.expression ++ s.nodes.map .concept)).flatMap Expression.components

theorem mem_nodes {t : Triple} (ht : t ∈ s.triples) : t.subject ∈ s.nodes ∧ t.object ∈ s.nodes :=
  ⟨List.mem_append_left _ (List.mem_map.mpr ⟨t, ht, rfl⟩),
    List.mem_append_right _ (List.mem_map.mpr ⟨t, ht, rfl⟩)⟩

theorem mem_pool_of_mem {e : Expression}
    (h : e ∈ sub :: sup :: (s.nodes.map s.expression ++ s.nodes.map .concept)) :
    e ∈ s.pool sub sup :=
  List.mem_flatMap.mpr ⟨e, h, e.self_mem_components⟩

theorem mem_pool_of_mem_nodes {node : Term} (h : node ∈ s.nodes) :
    s.expression node ∈ s.pool sub sup ∧ .concept node ∈ s.pool sub sup := by
  constructor
  · apply mem_pool_of_mem
    have hread : s.expression node ∈ s.nodes.map s.expression := List.mem_map_of_mem h
    simp [hread]
  · apply mem_pool_of_mem
    have hclass : Expression.concept node ∈ s.nodes.map Expression.concept := List.mem_map_of_mem h
    simp [hclass]

theorem closed_pool (s : Store) (sub sup : Expression) : s.Closed (s.pool sub sup) where
  part := by
    intro e d he h
    obtain ⟨root, hroot, he⟩ := List.mem_flatMap.mp he
    exact List.mem_flatMap.mpr ⟨root, hroot, Expression.mem_components_of_mem_parts he h⟩
  told := by
    intro c e he
    have hnode : ∃ d ∈ s.nodes, s.expression d = e := by
      rcases List.mem_append.mp he with he | he
      · obtain ⟨d, hd, rfl⟩ := mem_superClasses.mp he
        exact ⟨d, (mem_nodes hd).2, rfl⟩
      · obtain ⟨d, hd, rfl⟩ := mem_equivalentClasses.mp he
        exact ⟨d, hd.elim (fun hd => (mem_nodes hd).2) (fun hd => (mem_nodes hd).1), rfl⟩
    obtain ⟨d, hd, rfl⟩ := hnode
    exact (mem_pool_of_mem_nodes hd).1
  type := by
    intro a t ht
    exact (mem_pool_of_mem_nodes (mem_nodes (mem_types.mp ht)).2).2

/-- The number of pairs that the rules for two expressions may ask for. -/
def depthBound (s : Store) (sub sup : Expression) : Nat :=
  (s.pool sub sup).length * (s.pool sub sup).length

end Store

/-- Subsumption answers as without the path; greater depth accepts no less; and from a depth on that
the store and the two expressions determine, it accepts exactly what the rules derive. -/
theorem subsumes_decides (s : Store) (sub sup : Expression) :
    (∀ maxDepth, s.subsumes maxDepth sub sup = s.entailsFreely (maxDepth + 1) sub sup) ∧
      (∀ maxDepth deeper, maxDepth ≤ deeper → s.subsumes maxDepth sub sup = true →
        s.subsumes deeper sub sup = true) ∧
      ∀ maxDepth, s.depthBound sub sup ≤ maxDepth →
        (s.subsumes maxDepth sub sup = true ↔ s.Derives sub sup) := by
  refine ⟨fun maxDepth => s.subsumes_eq_entailsFreely maxDepth sub sup, ?_, ?_⟩
  · intro maxDepth deeper hle h
    rw [Store.subsumes_eq_entailsFreely] at h ⊢
    exact Store.entailsFreely_mono (Nat.succ_le_succ hle) h
  · intro maxDepth hbound
    rw [Store.subsumes_eq_entailsFreely]
    exact (s.closed_pool sub sup).entailsFreely_iff_derives (Store.mem_pool_of_mem (by simp))
      (Store.mem_pool_of_mem (by simp)) (Nat.le_succ_of_le hbound)

/-! A and B define each other, and so do C and D; B is empty. -/

namespace LoopedClasses

def triples : List Triple :=
  [⟨.iri ⟨"A"⟩, .iri Owl.equivalentClass, .iri ⟨"B"⟩⟩,
    ⟨.iri ⟨"B"⟩, .iri Rdfs.subClassOf, .iri Owl.nothing⟩,
    ⟨.iri ⟨"C"⟩, .iri Owl.equivalentClass, .iri ⟨"D"⟩⟩]

def store : Store := .ofList triples

def classA : Expression := .concept (.iri ⟨"A"⟩)

def classB : Expression := .concept (.iri ⟨"B"⟩)

def classC : Expression := .concept (.iri ⟨"C"⟩)

theorem expression_eq : store.expression = Evidence.typeExpression := by
  have htriples : store.triples = triples := by
    rw [store, Store.ofList, Store.triples_insertAll]
    decide
  apply Store.expression_eq_typeExpression
  rw [htriples]
  simp [triples]

theorem told_A : store.superClasses (.iri ⟨"A"⟩) ++ store.equivalentClasses (.iri ⟨"A"⟩) =
    [classB] := by
  rw [Store.superClasses, Store.equivalentClasses, expression_eq]
  decide

theorem bottom_mem_told_B :
    .bottom ∈ store.superClasses (.iri ⟨"B"⟩) ++ store.equivalentClasses (.iri ⟨"B"⟩) := by
  rw [Store.superClasses, Store.equivalentClasses, expression_eq]
  decide

/-- No class is defined by more than another class. -/
theorem concept?_equivalentClasses : ∀ c ∈ [Term.iri ⟨"A"⟩, .iri ⟨"C"⟩],
    ∀ e ∈ store.equivalentClasses c, e.concept? ≠ none := by
  simp only [Store.equivalentClasses, expression_eq]
  decide

/-- The rules lead from C and D to no other class. -/
theorem told_C : ∀ c ∈ [Term.iri ⟨"C"⟩, .iri ⟨"D"⟩],
    ∀ e ∈ store.superClasses c ++ store.equivalentClasses c,
      ∃ d ∈ [Term.iri ⟨"C"⟩, .iri ⟨"D"⟩], e = .concept d := by
  simp only [Store.superClasses, Store.equivalentClasses, expression_eq]
  decide

/-- The told hierarchy does not lead from C or D to A, nor from A to C. -/
theorem not_mem_toldSupers_C : ∀ c ∈ [Term.iri ⟨"C"⟩, .iri ⟨"D"⟩],
    .iri ⟨"A"⟩ ∉ store.toldSupers c := by
  intro c hc h
  have hnext : ∀ c ∈ [Term.iri ⟨"C"⟩, .iri ⟨"D"⟩], ∀ d ∈ store.nextSupers c,
      d ∈ [Term.iri ⟨"C"⟩, .iri ⟨"D"⟩] := by decide
  have habove := Store.forall_mem_search hnext [c] [] (by simpa using hc) (by simp) _ h
  exact absurd habove (by decide)

theorem not_mem_toldSupers_A : .iri ⟨"C"⟩ ∉ store.toldSupers (.iri ⟨"A"⟩) := by
  intro h
  have hnext : ∀ c ∈ [Term.iri ⟨"A"⟩, .iri ⟨"B"⟩, .iri Owl.nothing], ∀ d ∈ store.nextSupers c,
      d ∈ [Term.iri ⟨"A"⟩, .iri ⟨"B"⟩, .iri Owl.nothing] := by decide
  have habove := Store.forall_mem_search hnext [.iri ⟨"A"⟩] [] (by simp) (by simp) _ h
  exact absurd habove (by decide)

/-- C and D are told to contain each other only, so nothing makes them an A. -/
theorem entailsFreely_C (n : Nat) : ∀ c ∈ [Term.iri ⟨"C"⟩, .iri ⟨"D"⟩],
    store.entailsFreely n (.concept c) classA = false := by
  induction n with
  | zero => decide
  | succ n ih =>
    intro c hc
    rw [← Bool.not_eq_true, Store.entailsFreely_succ_iff, classA, Store.step_concept_iff]
    rintro (h | h | ⟨e, he, hnode, -⟩ | ⟨e, he, h⟩)
    · revert c
      decide
    · exact not_mem_toldSupers_C c hc h
    · exact concept?_equivalentClasses _ (by decide) e he hnode
    · obtain ⟨d, hd, rfl⟩ := told_C c hc e he
      exact absurd (ih d hd) (by simp [classA, h])

theorem subsumes_shallow : store.subsumes 0 classA classC = false := by
  rw [← Bool.not_eq_true, Store.subsumes, Store.entails_succ_iff, classA, classC,
    Store.step_concept_iff]
  rintro (h | ⟨-, h | ⟨e, he, hnode, -⟩ | ⟨e, he, h⟩⟩)
  · exact absurd h (by decide)
  · exact not_mem_toldSupers_A h
  · exact concept?_equivalentClasses _ (by decide) e he hnode
  · rw [told_A, List.mem_singleton] at he
    subst he
    exact absurd h (by decide)

theorem subsumes_deeper : store.subsumes 1 classA classC = true := by
  have hbottom : store.entailsFreely 0 .bottom classC = true := by decide
  have hB : store.entailsFreely 1 classB classC = true := by
    rw [Store.entailsFreely_succ_iff]
    exact Or.inr (Store.step_concept_iff.mpr (Or.inr (Or.inr ⟨_, bottom_mem_told_B, hbottom⟩)))
  rw [Store.subsumes_eq_entailsFreely, Store.entailsFreely_succ_iff]
  exact Or.inr (Store.step_concept_iff.mpr (Or.inr (Or.inr ⟨classB, by simp [told_A], hB⟩)))

/-- That all A are C is missed without depth and found at every depth from one on. That all C are A
is found at no depth, and is not derivable. -/
theorem decides_looped :
    store.subsumes 0 classA classC = false ∧
      (∀ maxDepth, 1 ≤ maxDepth → store.subsumes maxDepth classA classC = true) ∧
      store.Derives classA classC ∧
      (∀ maxDepth, store.subsumes maxDepth classC classA = false) ∧
      ¬ store.Derives classC classA := by
  obtain ⟨-, hmono, hderives⟩ := subsumes_decides store classA classC
  obtain ⟨hfreely, -, hderivesC⟩ := subsumes_decides store classC classA
  have hdeeper : ∀ maxDepth, 1 ≤ maxDepth → store.subsumes maxDepth classA classC = true := by
    intro maxDepth hdepth
    exact hmono 1 maxDepth hdepth subsumes_deeper
  have hnever : ∀ maxDepth, store.subsumes maxDepth classC classA = false := by
    intro maxDepth
    rw [hfreely]
    exact entailsFreely_C _ _ List.mem_cons_self
  refine ⟨subsumes_shallow, hdeeper, ?_, hnever, ?_⟩
  · -- at a depth from which on subsumption decides
    have hdeep := hdeeper (max 1 (store.depthBound classA classC)) (le_max_left ..)
    exact (hderives _ (le_max_right ..)).mp hdeep
  · intro h
    have hbound := (hderivesC _ le_rfl).mpr h
    rw [hnever] at hbound
    cases hbound

end LoopedClasses

end GraphConformance
