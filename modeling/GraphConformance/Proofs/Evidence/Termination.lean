import GraphConformance.Evidence.Translator
import GraphConformance.Proofs.Evidence.Depth

/-!
# Translation ends

However classes, definitions and edges lead back to each other, the recursion of translation ends.

Two things are counted. Definitions nest only so deep: each one on the way down belongs to a pair of
a class and an individual that was unknown when it was met and is known since, so what stands beyond
`Reasoner.definedPairs` nested definitions is never reached, whatever it is
(`agree_translateUpTo`). And each miss makes a pair known, among the pairs of an expression inside
the given one or inside a reading of a term of the store and of the given individual or a term of
the store (`Knowledge.pairs`); misses and unknown pairs together never increase (`spends_memoised`),
so there are at most as many misses as such pairs.
-/

set_option autoImplicit false

namespace GraphConformance

open Vocabulary Evidence

/-! ## Expressions inside expressions -/

namespace Expression

mutual

/-- The expressions inside an expression, itself included. -/
def subexpressions : Expression → List Expression
  | conj parts => conj parts :: subexpressionsOfAll parts
  | disj branches => disj branches :: subexpressionsOfAll branches
  | compl part => compl part :: part.subexpressions
  | someOf p filler => someOf p filler :: filler.subexpressions
  | onlyOf p filler => onlyOf p filler :: filler.subexpressions
  | e => [e]

/-- The expressions inside the expressions of a list. -/
def subexpressionsOfAll : List Expression → List Expression
  | [] => []
  | e :: rest => e.subexpressions ++ subexpressionsOfAll rest

end

theorem mem_subexpressionsOfAll {d : Expression} {es : List Expression} :
    d ∈ subexpressionsOfAll es ↔ ∃ e ∈ es, d ∈ e.subexpressions := by
  induction es with
  | nil => simp [subexpressionsOfAll]
  | cons e es ih => simp [subexpressionsOfAll, ih]

theorem self_mem_subexpressions (e : Expression) : e ∈ e.subexpressions := by
  cases e <;> simp [subexpressions]

mutual

/-- What is inside something inside an expression is inside the expression. -/
theorem subexpressions_subset {d : Expression} : (e : Expression) → d ∈ e.subexpressions →
    d.subexpressions ⊆ e.subexpressions
  | conj parts, h => by
    rcases List.mem_cons.mp h with rfl | h
    · exact List.Subset.refl _
    · exact List.subset_cons_of_subset _ (subexpressionsOfAll_subset parts h)
  | disj branches, h => by
    rcases List.mem_cons.mp h with rfl | h
    · exact List.Subset.refl _
    · exact List.subset_cons_of_subset _ (subexpressionsOfAll_subset branches h)
  | compl part, h => by
    rcases List.mem_cons.mp h with rfl | h
    · exact List.Subset.refl _
    · exact List.subset_cons_of_subset _ (subexpressions_subset part h)
  | someOf p filler, h => by
    rcases List.mem_cons.mp h with rfl | h
    · exact List.Subset.refl _
    · exact List.subset_cons_of_subset _ (subexpressions_subset filler h)
  | onlyOf p filler, h => by
    rcases List.mem_cons.mp h with rfl | h
    · exact List.Subset.refl _
    · exact List.subset_cons_of_subset _ (subexpressions_subset filler h)
  | top, h | bottom, h | concept _, h | atLeast .., h | atMost .., h | exactly .., h
  | selfOf _, h | valueOf .., h | nominal _, h => by
    rw [List.mem_singleton.mp h]
    exact List.Subset.refl _

theorem subexpressionsOfAll_subset {d : Expression} : (es : List Expression) →
    d ∈ subexpressionsOfAll es → d.subexpressions ⊆ subexpressionsOfAll es
  | [], h => absurd h List.not_mem_nil
  | e :: rest, h => by
    rcases List.mem_append.mp h with h | h
    · exact List.subset_append_of_subset_left _ (subexpressions_subset e h)
    · exact List.subset_append_of_subset_right _ (subexpressionsOfAll_subset rest h)

end

end Expression

/-! ## Pairs that a translation may meet -/

namespace Knowledge

variable {k : Knowledge} {given : Expression} {e : Expression} {x x₀ : Term}

/-- The expressions that a translation against the given one may meet: those inside it and those
inside the readings of the terms of the store. -/
def vocabulary (k : Knowledge) (given : Expression) : List Expression :=
  given.subexpressions ++ k.store.terms.flatMap fun t => (k.store.expression t).subexpressions

/-- The pairs of an expression and an individual that a translation may meet. -/
def pairs (k : Knowledge) (given : Expression) (x : Term) : Finset (Expression × Term) :=
  (k.vocabulary given).toFinset ×ˢ (x :: k.store.terms).toFinset

theorem mem_pairs : (e, x) ∈ k.pairs given x₀ ↔
    e ∈ k.vocabulary given ∧ x ∈ x₀ :: k.store.terms := by
  rw [pairs, Finset.mem_product, List.mem_toFinset, List.mem_toFinset]

theorem subexpressions_subset_vocabulary (h : e ∈ k.vocabulary given) :
    e.subexpressions ⊆ k.vocabulary given := by
  intro d hd
  rcases List.mem_append.mp h with h | h
  · exact List.mem_append_left _ (Expression.subexpressions_subset _ h hd)
  · obtain ⟨t, ht, h⟩ := List.mem_flatMap.mp h
    apply List.mem_append_right
    exact List.mem_flatMap.mpr ⟨t, ht, Expression.subexpressions_subset _ h hd⟩

/-- The question about a part is about an expression inside. -/
theorem mem_subexpressions_of_part {r : Reasoner} {e' : Expression} {x' : Term}
    (h : r.Part e x e' x') : e' ∈ e.subexpressions := by
  have hself := e'.self_mem_subexpressions
  cases h with
  | conj h =>
    rw [Expression.subexpressions, List.mem_cons, Expression.mem_subexpressionsOfAll]
    exact Or.inr ⟨e', h, hself⟩
  | disj h =>
    rw [Expression.subexpressions, List.mem_cons, Expression.mem_subexpressionsOfAll]
    exact Or.inr ⟨e', h, hself⟩
  | compl => exact List.mem_cons_of_mem _ hself
  | someOf h hv => exact List.mem_cons_of_mem _ hself
  | onlyOf h hv => exact List.mem_cons_of_mem _ hself

/-- A definition is what a term of the store is read as. -/
theorem exists_expression_of_definition {d : Expression} (h : k.reasoner.Definition e d) :
    ∃ t ∈ k.store.terms, k.store.expression t = d := by
  cases h with
  | superClass h =>
    obtain ⟨o, ho, rfl⟩ := List.mem_map.mp h
    refine ⟨o, Store.mem_terms_of_mentions ?_, rfl⟩
    exact Store.mentions_iff.mpr ⟨_, Store.mem_objects.mp ho, Or.inr (Or.inr rfl)⟩
  | equivalent h =>
    obtain ⟨o, ho, rfl⟩ := List.mem_map.mp (Distinct.mem_dedup.mp h)
    refine ⟨o, Store.mem_terms_of_mentions (Store.mentions_iff.mpr ?_), rfl⟩
    rcases List.mem_append.mp ho with ho | ho
    · exact ⟨_, Store.mem_objects.mp ho, Or.inr (Or.inr rfl)⟩
    · exact ⟨_, Store.mem_subjects.mp ho, Or.inl rfl⟩

theorem mem_terms_of_mem_individuals (h : x ∈ k.individuals x₀) : x ∈ x₀ :: k.store.terms := by
  rcases List.mem_cons.mp h with rfl | h
  · exact List.mem_cons_self
  · obtain ⟨t, ht, rfl⟩ := List.mem_map.mp h
    apply List.mem_cons_of_mem
    exact Store.mem_terms_of_mentions (Store.mentions_iff.mpr ⟨t, ht, Or.inr (Or.inr rfl)⟩)

theorem mem_terms_of_part {e' : Expression} {x' : Term} (h : k.reasoner.Part e x e' x')
    (hx : x ∈ x₀ :: k.store.terms) : x' ∈ x₀ :: k.store.terms := by
  cases h with
  | conj h => exact hx
  | disj h => exact hx
  | compl => exact hx
  | someOf h hv => exact mem_terms_of_mem_individuals (mem_individuals_of_values? h hv)
  | onlyOf h hv => exact mem_terms_of_mem_individuals (mem_individuals_of_values? h hv)

theorem encloses_pairs (k : Knowledge) (given : Expression) (x₀ : Term) :
    k.reasoner.Encloses fun e x => (e, x) ∈ k.pairs given x₀ where
  part h hpart := by
    obtain ⟨he, hx⟩ := mem_pairs.mp h
    exact mem_pairs.mpr ⟨subexpressions_subset_vocabulary he (mem_subexpressions_of_part hpart),
      mem_terms_of_part hpart hx⟩
  definition h hd := by
    obtain ⟨t, ht, rfl⟩ := exists_expression_of_definition hd
    refine mem_pairs.mpr ⟨List.mem_append_right _ ?_, (mem_pairs.mp h).2⟩
    exact List.mem_flatMap.mpr ⟨t, ht, Expression.self_mem_subexpressions _⟩

end Knowledge

namespace Evidence

/-! ## Unknown pairs -/

namespace Memo

variable {m m' : Memo} {U : Finset (Expression × Term)} {p : Expression × Term}

/-- The pairs of a set about which nothing is known. -/
def unknown (m : Memo) (U : Finset (Expression × Term)) : Finset (Expression × Term) :=
  U.filter fun p => (m.known p).isNone

theorem mem_unknown : p ∈ m.unknown U ↔ p ∈ U ∧ m.known p = none := by
  rw [unknown, Finset.mem_filter, Option.isNone_iff_eq_none]

/-- The start of a pair makes that pair known. -/
theorem unknown_start (m : Memo) (U : Finset (Expression × Term)) (p : Expression × Term) :
    (m.start p).unknown U = (m.unknown U).erase p := by
  ext q
  rw [Finset.mem_erase, mem_unknown, mem_unknown, known_start]
  by_cases hq : q = p
  · simp [hq]
  · simp [hq]

theorem unknown_finish_subset (m : Memo) (U : Finset (Expression × Term)) (e : Expression)
    (x : Term) (verdict : Verdict) : (m.finish e x verdict).unknown U ⊆ m.unknown U := by
  intro q hq
  rw [mem_unknown, known_finish] at hq
  rw [mem_unknown]
  obtain ⟨hU, hnone⟩ := hq
  by_cases heq : q = (e, x)
  · rw [if_pos heq] at hnone
    exact absurd hnone (by simp)
  · rw [if_neg heq] at hnone
    exact ⟨hU, hnone⟩

/-- Each miss is paid for by a pair that becomes known. -/
def Spends (U : Finset (Expression × Term)) (m m' : Memo) : Prop :=
  m'.misses + (m'.unknown U).card ≤ m.misses + (m.unknown U).card

end Memo

/-- A look-up of a pair of the set pays for its miss. -/
theorem spends_memoised {U : Finset (Expression × Term)} {e : Expression} {x : Term} {work : Work}
    (hU : (e, x) ∈ U) (h : Moves (Memo.Spends U) (outcome work)) :
    Moves (Memo.Spends U) (outcome (memoised e x work)) := by
  intro m
  show m.Spends U (memoised e x work m).2
  cases hm : m.known (e, x) with
  | none =>
    rw [memoised_of_none hm]
    have hwork : (m.start (e, x)).Spends U (work (m.start (e, x))).2 := h (m.start (e, x))
    have hmem : (e, x) ∈ m.unknown U := Memo.mem_unknown.mpr ⟨hU, hm⟩
    have hstart : ((m.start (e, x)).unknown U).card + 1 = (m.unknown U).card := by
      rw [Memo.unknown_start, Finset.card_erase_add_one hmem]
    have hfinish := Finset.card_le_card (Memo.unknown_finish_subset (work (m.start (e, x))).2 U e x
      (work (m.start (e, x))).1)
    have hmisses : (m.start (e, x)).misses = m.misses + 1 := rfl
    unfold Memo.Spends at hwork ⊢
    calc ((work (m.start (e, x))).2.finish e x (work (m.start (e, x))).1).misses +
          (((work (m.start (e, x))).2.finish e x (work (m.start (e, x))).1).unknown U).card
        ≤ (work (m.start (e, x))).2.misses + ((work (m.start (e, x))).2.unknown U).card :=
          Nat.add_le_add_left hfinish _
      _ ≤ (m.start (e, x)).misses + ((m.start (e, x)).unknown U).card := hwork
      _ = m.misses + (m.unknown U).card := by omega
  | some entry =>
    cases entry with
    | inProgress =>
      rw [memoised_of_inProgress hm]
      exact Nat.le_refl _
    | finished verdict =>
      rw [memoised_of_finished hm]
      exact Nat.le_refl _

/-- A translation misses at most as many pairs as are unknown. -/
theorem misses_translateWithin_le (k : Knowledge) (depth : Nat) (path : ClassPath) (e : Expression)
    (x : Term) (m : Memo) :
    (translateWithin k.reasoner depth path e x m).2.misses ≤
      m.misses + (m.unknown (k.pairs e x)).card := by
  have hmem : (e, x) ∈ k.pairs e x := Knowledge.mem_pairs.mpr
    ⟨List.mem_append_left _ e.self_mem_subexpressions, List.mem_cons_self⟩
  have hspends : m.Spends (k.pairs e x) (translateWithin k.reasoner depth path e x m).2 :=
    moves_translateWithin_of (R := Memo.Spends (k.pairs e x)) (fun _ => Nat.le_refl _)
      (fun h h' => Nat.le_trans h' h) (k.encloses_pairs e x) (fun _ _ _ => spends_memoised) depth
      path e x hmem m
  exact Nat.le_trans (Nat.le_add_right _ _) hspends

/-! ## Depth of definitions -/

/-- Translate against an expression with so many definitions inside each other, and leave
definitions further inside to other work. -/
def translateUpTo (r : Reasoner) (beyond : ClassPath → Expression → Term → Work) :
    Nat → ClassPath → Expression → Term → Work
  | 0 => beyond
  | depth + 1 => evaluate r (translateUpTo r beyond depth)

theorem translateWithin_eq_translateUpTo (r : Reasoner) (depth : Nat) :
    translateWithin r depth = translateUpTo r (fun _ _ _ => done (.ok [])) (depth + 1) := by
  induction depth with
  | zero => rfl
  | succ depth ih =>
    funext path e x m
    rw [translateWithin, ih]
    rfl

/-- From every memory of a kind, two computations do the same and end in such a memory. -/
def Agree {α : Type} (P : Memo → Prop) (work work' : Memo → α × Memo) : Prop :=
  ∀ m, P m → work m = work' m ∧ P (work m).2

section Agree

variable {P : Memo → Prop} {path : ClassPath} {x : Term}

theorem agree_done (verdict : Verdict) : Agree P (done verdict) (done verdict) :=
  fun _ hm => ⟨rfl, hm⟩

theorem agree_cons {work work' : Work} {works works' : List Work} (h : Agree P work work')
    (hrest : Agree P (every works) (every works')) :
    Agree P (every (work :: works)) (every (work' :: works')) := by
  intro m hm
  obtain ⟨heq, hm'⟩ := h m hm
  rw [every, every, ← heq]
  cases hfirst : work m with
  | mk verdict m' =>
    rw [hfirst] at hm'
    cases verdict with
    | error failure => exact ⟨rfl, hm'⟩
    | ok found =>
      obtain ⟨heq', hm''⟩ := hrest m' hm'
      dsimp only
      rw [← heq']
      cases hmore : every works m' with
      | mk verdict m'' =>
        rw [hmore] at hm''
        cases verdict with
        | error failure => exact ⟨rfl, hm''⟩
        | ok more => exact ⟨rfl, hm''⟩

section Lists

variable {ι : Type} {f g : ι → Work} {is : List ι}

theorem agree_every (h : ∀ i ∈ is, Agree P (f i) (g i)) :
    Agree P (every (is.map f)) (every (is.map g)) := by
  induction is with
  | nil => exact fun _ hm => ⟨rfl, hm⟩
  | cons i is ih =>
    exact agree_cons (h i List.mem_cons_self) (ih fun j hj => h j (List.mem_cons_of_mem _ hj))

theorem agree_each (h : ∀ i ∈ is, Agree P (f i) (g i)) :
    Agree P (each (is.map f)) (each (is.map g)) := by
  induction is with
  | nil => exact fun _ hm => ⟨rfl, hm⟩
  | cons i is ih =>
    intro m hm
    obtain ⟨heq, hm'⟩ := h i List.mem_cons_self m hm
    obtain ⟨heq', hm''⟩ := ih (fun j hj => h j (List.mem_cons_of_mem _ hj)) _ hm'
    simp only [List.map_cons, each, ← heq, ← heq']
    exact ⟨trivial, hm''⟩

end Lists

section Values

variable {f g : Term → Work} {p : Term} {filler : Expression} {vs : List Term}

theorem agree_firstMember (h : ∀ v ∈ vs, Agree P (f v) (g v)) (failure : Option Failure) :
    Agree P (firstMember f vs failure) (firstMember g vs failure) := by
  induction vs generalizing failure with
  | nil => exact fun _ hm => ⟨rfl, hm⟩
  | cons v vs ih =>
    intro m hm
    obtain ⟨heq, hm'⟩ := h v List.mem_cons_self m hm
    rw [firstMember, firstMember, ← heq]
    cases hfirst : f v m with
    | mk verdict m' =>
      rw [hfirst] at hm'
      cases verdict with
      | ok found => exact ⟨rfl, hm'⟩
      | error last => exact ih (fun w hw => h w (List.mem_cons_of_mem _ hw)) _ m' hm'

theorem agree_checkSome (h : ∀ v ∈ vs, Agree P (f v) (g v)) :
    Agree P (checkSome path f p filler x vs) (checkSome path g p filler x vs) := by
  intro m hm
  obtain ⟨heq, hm'⟩ := agree_firstMember h none m hm
  rw [checkSome, checkSome, ← heq]
  cases hfirst : firstMember f vs none m with
  | mk result m' =>
    rw [hfirst] at hm'
    cases result with
    | ok member => exact ⟨rfl, hm'⟩
    | error cause => exact ⟨rfl, hm'⟩

theorem agree_checkOnly (h : ∀ v ∈ vs, Agree P (f v) (g v)) :
    Agree P (checkOnly path f p filler x vs) (checkOnly path g p filler x vs) := by
  intro m hm
  obtain ⟨heq, hm'⟩ := agree_each h m hm
  rw [checkOnly, checkOnly, ← heq]
  dsimp only
  split
  · exact ⟨rfl, hm'⟩
  · exact ⟨rfl, hm'⟩

theorem agree_onValues {r : Reasoner} {work work' : List Term → Work}
    (h : ∀ vs, r.values? p x = some vs → Agree P (work vs) (work' vs)) :
    Agree P (onValues r path p x work) (onValues r path p x work') := by
  intro m hm
  rw [onValues, onValues]
  cases hvalues : values r path p x with
  | error failure => exact ⟨rfl, hm⟩
  | ok vs =>
    apply h vs _ m hm
    rw [← values_toOption r path, hvalues]
    rfl

end Values

theorem agree_checkUnion {ι : Type} {f g : ι → Work} {is : List ι}
    (h : ∀ i ∈ is, Agree P (f i) (g i)) :
    Agree P (checkUnion path (is.map f) x) (checkUnion path (is.map g) x) := by
  intro m hm
  obtain ⟨heq, hm'⟩ := agree_each h m hm
  rw [checkUnion, checkUnion, ← heq, List.length_map, List.length_map]
  dsimp only
  split
  · exact ⟨rfl, hm'⟩
  · exact ⟨rfl, hm'⟩

theorem agree_checkComplement {work work' : Work} {part : Expression} (h : Agree P work work') :
    Agree P (checkComplement path work part x) (checkComplement path work' part x) := by
  intro m hm
  obtain ⟨heq, hm'⟩ := h m hm
  rw [checkComplement, checkComplement, ← heq]
  cases hwork : work m with
  | mk verdict m' =>
    rw [hwork] at hm'
    cases verdict with
    | ok found => exact ⟨rfl, hm'⟩
    | error failure => exact ⟨rfl, hm'⟩

theorem agree_checkClass {r : Reasoner} {f g : ClassPath → Expression → Term → Work} {c : Term}
    (h : ∀ d, r.Definition (.concept c) d → Agree P (f (path.push c) d x) (g (path.push c) d x)) :
    Agree P (checkClass r f path c x) (checkClass r g path c x) := by
  have hdefinitions : ∀ d ∈ r.superClasses c ++ r.equivalentClasses c,
      Agree P (f (path.push c) d x) (g (path.push c) d x) := by
    intro d hd
    rcases List.mem_append.mp hd with hd | hd
    · exact h d (.superClass hd)
    · exact h d (.equivalent hd)
  intro m hm
  unfold checkClass
  split
  · exact ⟨rfl, hm⟩
  · split
    · exact ⟨rfl, hm⟩
    · dsimp only
      split
      · exact ⟨rfl, hm⟩
      · exact agree_cons (agree_done _) (agree_every hdefinitions) m hm

end Agree

end Evidence

namespace Knowledge

variable {k : Knowledge} {given : Term} {n : Nat}

/-- At most so many of the pairs for which a definition may be unfolded are unknown. -/
def Few (k : Knowledge) (given : Term) (n : Nat) (m : Memo) : Prop :=
  (m.unknown (k.definedPairs given)).card ≤ n

theorem Few.mono {n' : Nat} {m m' : Memo} (h : k.Few given n m) (hn : n ≤ n')
    (hsub : m'.unknown (k.definedPairs given) ⊆ m.unknown (k.definedPairs given)) :
    k.Few given n' m' :=
  Nat.le_trans (Finset.card_le_card hsub) (Nat.le_trans h hn)

/-- Two look-ups agree when their work does from the start of the pair. -/
theorem agree_memoised {e : Expression} {x : Term} {work work' : Work}
    (h : ∀ m, k.Few given n m → m.known (e, x) = none →
      work (m.start (e, x)) = work' (m.start (e, x)) ∧ k.Few given n (work (m.start (e, x))).2) :
    Agree (k.Few given n) (memoised e x work) (memoised e x work') := by
  intro m hm
  cases hknown : m.known (e, x) with
  | none =>
    rw [memoised_of_none hknown, memoised_of_none hknown]
    obtain ⟨heq, hm'⟩ := h m hm hknown
    rw [← heq]
    exact ⟨rfl, hm'.mono (Nat.le_refl n) (Memo.unknown_finish_subset _ _ _ _ _)⟩
  | some entry =>
    cases entry with
    | inProgress =>
      rw [memoised_of_inProgress hknown, memoised_of_inProgress hknown]
      exact ⟨rfl, hm⟩
    | finished verdict =>
      rw [memoised_of_finished hknown, memoised_of_finished hknown]
      exact ⟨rfl, hm⟩

theorem Few.start {m : Memo} (h : k.Few given n m) (p : Expression × Term) :
    k.Few given n (m.start p) := by
  refine h.mono (Nat.le_refl n) ?_
  rw [Memo.unknown_start]
  exact Finset.erase_subset _ _

theorem agree_memoised_of_agree {e : Expression} {x : Term} {work work' : Work}
    (h : Agree (k.Few given n) work work') :
    Agree (k.Few given n) (memoised e x work) (memoised e x work') :=
  agree_memoised fun _ hm _ => h _ (hm.start _)

/-- Where a definition is unfolded, the pair of its class was unknown, so fewer pairs are unknown
inside. -/
theorem Few.unfold {m : Memo} {e d : Expression} {x : Term} (h : k.Few given n m)
    (hnone : m.known (e, x) = none) (hd : k.reasoner.Definition e d)
    (hx : x ∈ k.individuals given) :
    ∃ fewer, n = fewer + 1 ∧ k.Few given fewer (m.start (e, x)) := by
  have hmem : (e, x) ∈ m.unknown (k.definedPairs given) := by
    rw [Memo.mem_unknown, definedPairs, Finset.mem_product, List.mem_toFinset, List.mem_toFinset]
    exact ⟨⟨mem_classes_of_definition hd, hx⟩, hnone⟩
  have hcard := Finset.card_erase_add_one hmem
  rw [← Memo.unknown_start] at hcard
  unfold Few at h ⊢
  exact ⟨n - 1, by omega, by omega⟩

/-- What stands beyond more nested definitions than there are unknown pairs is never reached. -/
theorem agree_translateUpTo (beyond beyond' : ClassPath → Expression → Term → Work) (n : Nat)
    {depth depth' : Nat} (h : n < depth) (h' : n < depth') (path : ClassPath) (e : Expression)
    (x : Term) (hx : x ∈ k.individuals given) :
    Agree (k.Few given n) (translateUpTo k.reasoner beyond depth path e x)
      (translateUpTo k.reasoner beyond' depth' path e x) := by
  obtain ⟨depth, rfl⟩ : ∃ below, depth = below + 1 := ⟨depth - 1, by omega⟩
  obtain ⟨depth', rfl⟩ : ∃ below, depth' = below + 1 := ⟨depth' - 1, by omega⟩
  have hask : ∀ e' x', k.reasoner.Part e x e' x' → Agree (k.Few given n)
      (evaluate k.reasoner (translateUpTo k.reasoner beyond depth) path e' x')
      (evaluate k.reasoner (translateUpTo k.reasoner beyond' depth') path e' x') := by
    intro e' x' hpart
    have := hpart.sizeOf_lt
    exact agree_translateUpTo beyond beyond' n h h' path e' x' (mem_individuals_of_part hpart hx)
  rw [translateUpTo, translateUpTo]
  cases e with
  | top =>
    rw [evaluate, evaluate]
    exact agree_memoised_of_agree (agree_done _)
  | bottom =>
    rw [evaluate, evaluate]
    exact agree_memoised_of_agree (agree_done _)
  | concept c =>
    rw [evaluate, evaluate]
    apply agree_memoised
    intro m hm hnone
    by_cases hdefined : ∃ d, k.reasoner.Definition (.concept c) d
    · obtain ⟨d, hd⟩ := hdefined
      -- the pair itself is known from now on, which pays for the next definition
      obtain ⟨fewer, rfl, hstart⟩ := hm.unfold hnone hd hx
      have hclass : Agree (k.Few given fewer)
          (checkClass k.reasoner (translateUpTo k.reasoner beyond depth) path c x)
          (checkClass k.reasoner (translateUpTo k.reasoner beyond' depth') path c x) :=
        agree_checkClass fun d _ => agree_translateUpTo beyond beyond' fewer (by omega) (by omega)
          (path.push c) d x hx
      obtain ⟨heq, hafter⟩ := hclass _ hstart
      exact ⟨heq, hafter.mono (Nat.le_succ fewer) (Finset.Subset.refl _)⟩
    · exact agree_checkClass (fun d hd => absurd ⟨d, hd⟩ hdefined) _ (hm.start _)
  | conj parts =>
    have hparts : Agree (k.Few given n)
        (every ((evaluateEach k.reasoner (translateUpTo k.reasoner beyond depth) path parts).map
          (· x)))
        (every ((evaluateEach k.reasoner (translateUpTo k.reasoner beyond' depth') path parts).map
          (· x))) := by
      rw [evaluateEach_eq_map, evaluateEach_eq_map, List.map_map, List.map_map]
      exact agree_every fun e' he' => hask e' x (.conj he')
    rw [evaluate, evaluate]
    exact agree_memoised_of_agree hparts
  | disj branches =>
    have hbranches : Agree (k.Few given n)
        (checkUnion path ((evaluateEach k.reasoner (translateUpTo k.reasoner beyond depth) path
          branches).map (· x)) x)
        (checkUnion path ((evaluateEach k.reasoner (translateUpTo k.reasoner beyond' depth') path
          branches).map (· x)) x) := by
      rw [evaluateEach_eq_map, evaluateEach_eq_map, List.map_map, List.map_map]
      exact agree_checkUnion fun e' he' => hask e' x (.disj he')
    rw [evaluate, evaluate]
    exact agree_memoised_of_agree hbranches
  | compl part =>
    rw [evaluate, evaluate]
    exact agree_memoised_of_agree (agree_checkComplement (hask part x .compl))
  | someOf p filler =>
    rw [evaluate, evaluate]
    apply agree_memoised_of_agree
    apply agree_onValues
    intro vs hvs
    exact agree_checkSome fun v hv => hask filler v (.someOf hvs hv)
  | onlyOf p filler =>
    rw [evaluate, evaluate]
    apply agree_memoised_of_agree
    apply agree_onValues
    intro vs hvs
    exact agree_checkOnly fun v hv => hask filler v (.onlyOf hvs hv)
  | atLeast p bound =>
    rw [evaluate, evaluate]
    exact agree_memoised_of_agree (agree_onValues fun _ _ => agree_done _)
  | atMost p bound =>
    rw [evaluate, evaluate]
    exact agree_memoised_of_agree (agree_onValues fun _ _ => agree_done _)
  | exactly p bound =>
    rw [evaluate, evaluate]
    exact agree_memoised_of_agree (agree_onValues fun _ _ => agree_done _)
  | selfOf p =>
    rw [evaluate, evaluate]
    exact agree_memoised_of_agree (agree_onValues fun _ _ => agree_done _)
  | valueOf p v =>
    rw [evaluate, evaluate]
    exact agree_memoised_of_agree (agree_done _)
  | nominal a =>
    rw [evaluate, evaluate]
    exact agree_memoised_of_agree (agree_done _)
termination_by (n, sizeOf e)

end Knowledge

/-- Every translation ends. Its definitions nest at most `Reasoner.definedPairs` deep: whatever
stands beyond is not reached. It misses at most as many pairs as can be made of an expression inside
the given one or inside what a term of the store is read as, and of the given individual or a term
of the store. And it leaves the path of classes as it was. -/
theorem translate_terminates (k : Knowledge) (τ : Translator) (e : Expression) (x : Term) :
    (∀ depth > k.reasoner.definedPairs, ∀ beyond,
        τ.translate k.reasoner e x =
          ((translateUpTo k.reasoner beyond depth τ.path e x τ.memo).1,
            ⟨(translateUpTo k.reasoner beyond depth τ.path e x τ.memo).2, τ.path⟩)) ∧
      (τ.translate k.reasoner e x).2.memo.misses ≤ τ.memo.misses +
        ((k.vocabulary e).toFinset ×ˢ (x :: k.store.terms).toFinset).card ∧
      (τ.translate k.reasoner e x).2.path = τ.path := by
  -- The path is handed down and never handed back: a class is pushed onto the path that its
  -- definitions get, and whoever asked for the class goes on with a path of its own. A stack on
  -- which the class is pushed before its definitions and popped behind them, whatever came of them,
  -- holds that path at each step; so of the three parts only the last holds by definition.
  refine ⟨?_, ?_, rfl⟩
  · intro depth hdepth beyond
    have hfew : k.Few x k.reasoner.definedPairs τ.memo :=
      Nat.le_trans (Finset.card_le_card (Finset.filter_subset _ _)) (k.card_definedPairs_le x)
    have hagree := Knowledge.agree_translateUpTo (k := k) (fun _ _ _ => done (.ok [])) beyond
      k.reasoner.definedPairs (Nat.lt_succ_self _) hdepth τ.path e x List.mem_cons_self
    have heq := (hagree τ.memo hfew).1
    rw [← translateWithin_eq_translateUpTo] at heq
    rw [← heq]
    rfl
  · refine Nat.le_trans (misses_translateWithin_le k k.reasoner.definedPairs τ.path e x τ.memo) ?_
    exact Nat.add_le_add_left (Finset.card_le_card (Finset.filter_subset _ _)) _

end GraphConformance
