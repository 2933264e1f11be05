import GraphConformance.Knowledge.Subsumption

/-!
# Derivations of containment

The rules of subsumption as an inductive definition, without depth and without a path of pairs.
`Store.Rule` gives for each rule the pairs that it asks for and the pair that it decides. One round
of the rules accepts a pair exactly when some rule for the pair has all that it asks for accepted
(`Store.step_iff`), so what follows goes rule by rule and opens no round again. `Store.Derives` is
the least relation that contains what holds anyway and is closed under the rules; it is a fixed
point of a round (`Store.derives_iff`), and contained in every relation that a round maps into
itself (`Store.Derives.of_closed`).
-/

set_option autoImplicit false

namespace GraphConformance

namespace Expression

/-- Whether the expression is a union. -/
def isUnion : Expression → Bool
  | disj _ => true
  | _ => false

/-- Whether the expression is an intersection. -/
def isIntersection : Expression → Bool
  | conj _ => true
  | _ => false

theorem isUnion_eq_false {e : Expression} (h : ∀ branches, e ≠ disj branches) :
    e.isUnion = false := by
  cases e with
  | disj branches => exact absurd rfl (h branches)
  | _ => rfl

theorem isIntersection_eq_false {e : Expression} (h : ∀ parts, e ≠ conj parts) :
    e.isIntersection = false := by
  cases e with
  | conj parts => exact absurd rfl (h parts)
  | _ => rfl

end Expression

namespace Store

variable {s : Store} {ask ask' : Expression → Expression → Bool} {sub sup : Expression}

/-- The rules of subsumption: the pairs that a rule asks for, and the pair that it decides. A union
on the left is always taken apart first, and then an intersection on the right. -/
inductive Rule (s : Store) : List (Expression × Expression) → Expression → Expression → Prop where
  | leftUnion {branches : List Expression} {sup : Expression} :
      Rule s (branches.map (·, sup)) (.disj branches) sup
  | rightIntersection {sub : Expression} {parts : List Expression} (hsub : sub.isUnion = false) :
      Rule s (parts.map (sub, ·)) sub (.conj parts)
  | rightUnion {sub e : Expression} {branches : List Expression} (hsub : sub.isUnion = false)
      (he : e ∈ branches) : Rule s [(sub, e)] sub (.disj branches)
  -- a class contains its told sub-classes and what its definitions contain
  | hierarchy {c d : Term} (h : c ∈ s.toldSupers d) : Rule s [] (.concept d) (.concept c)
  | definition {sub e : Expression} {c : Term} (hsub : sub.isUnion = false)
      (he : e ∈ s.equivalentClasses c) (hnode : e.concept? = none) :
      Rule s [(sub, e)] sub (.concept c)
  -- the values of a sub-property are values of the property
  | someOf_someOf {p q : Term} {filler other : Expression} (h : s.isSubProperty q p = true) :
      Rule s [(other, filler)] (.someOf q other) (.someOf p filler)
  | someOf_atLeast {p q : Term} {n : Nat} {filler : Expression} (hn : 1 ≤ n)
      (htop : filler.isTop = true) (h : s.isSubProperty q p = true) :
      Rule s [] (.atLeast q n) (.someOf p filler)
  | someOf_exactly {p q : Term} {n : Nat} {filler : Expression} (hn : 1 ≤ n)
      (htop : filler.isTop = true) (h : s.isSubProperty q p = true) :
      Rule s [] (.exactly q n) (.someOf p filler)
  | someOf_valueOf {p q v : Term} {filler : Expression} (h : s.isSubProperty q p = true) :
      Rule s [(.nominal v, filler)] (.valueOf q v) (.someOf p filler)
  | onlyOf_onlyOf {p q : Term} {filler other : Expression} (h : s.isSubProperty p q = true) :
      Rule s [(other, filler)] (.onlyOf q other) (.onlyOf p filler)
  -- a lower bound passes to the properties above, an upper bound to those below
  | atLeast_zero {sub : Expression} {p : Term} (hsub : sub.isUnion = false) :
      Rule s [] sub (.atLeast p 0)
  | atLeast_atLeast {p q : Term} {m n : Nat} (hn : n ≤ m) (h : s.isSubProperty q p = true) :
      Rule s [] (.atLeast q m) (.atLeast p n)
  | atLeast_exactly {p q : Term} {m n : Nat} (hn : n ≤ m) (h : s.isSubProperty q p = true) :
      Rule s [] (.exactly q m) (.atLeast p n)
  | atLeast_someOf {p q : Term} {filler : Expression} (h : s.isSubProperty q p = true) :
      Rule s [] (.someOf q filler) (.atLeast p 1)
  | atLeast_valueOf {p q v : Term} (h : s.isSubProperty q p = true) :
      Rule s [] (.valueOf q v) (.atLeast p 1)
  | atMost_atMost {p q : Term} {m n : Nat} (hn : m ≤ n) (h : s.isSubProperty p q = true) :
      Rule s [] (.atMost q m) (.atMost p n)
  | atMost_exactly {p q : Term} {m n : Nat} (hn : m ≤ n) (h : s.isSubProperty p q = true) :
      Rule s [] (.exactly q m) (.atMost p n)
  | exactly_exactly {p : Term} {n : Nat} : Rule s [] (.exactly p n) (.exactly p n)
  | selfOf_selfOf {p q : Term} (h : s.isSubProperty q p = true) : Rule s [] (.selfOf q) (.selfOf p)
  | valueOf_valueOf {p q v : Term} (h : s.isSubProperty q p = true) :
      Rule s [] (.valueOf q v) (.valueOf p v)
  | valueOf_someOf {p q v : Term} (h : s.isSubProperty q p = true) :
      Rule s [] (.someOf q (.nominal v)) (.valueOf p v)
  -- complements turn containment around
  | compl_compl {excluded other : Expression} :
      Rule s [(excluded, other)] (.compl other) (.compl excluded)
  | disjoint {c excluded : Term} (h : s.toldDisjoint c excluded = true) :
      Rule s [] (.concept c) (.compl (.concept excluded))
  -- the left side is replaced by something that contains it
  | part {sup e : Expression} {parts : List Expression} (hsup : sup.isIntersection = false)
      (he : e ∈ parts) : Rule s [(e, sup)] (.conj parts) sup
  | told {sup e : Expression} {c : Term} (hsup : sup.isIntersection = false)
      (he : e ∈ s.superClasses c ++ s.equivalentClasses c) : Rule s [(e, sup)] (.concept c) sup
  | type {sup : Expression} {a t : Term} (hsup : sup.isIntersection = false) (ht : t ∈ s.types a) :
      Rule s [(.concept t, sup)] (.nominal a) sup

/-- Some rule for the pair has all that it asks for accepted. -/
def Granted (s : Store) (ask : Expression → Expression → Bool) (sub sup : Expression) : Prop :=
  ∃ premises, s.Rule premises sub sup ∧ ∀ q ∈ premises, ask q.1 q.2 = true

namespace Granted

theorem of_fact (h : s.Rule [] sub sup) : s.Granted ask sub sup :=
  ⟨[], h, by simp⟩

theorem of_single {e f : Expression} (h : s.Rule [(e, f)] sub sup) (hask : ask e f = true) :
    s.Granted ask sub sup :=
  ⟨[(e, f)], h, by simpa using hask⟩

/-- What more is accepted for grants no less. -/
theorem mono (hask : ∀ premises, s.Rule premises sub sup → ∀ q ∈ premises, ask q.1 q.2 = true →
    ask' q.1 q.2 = true) (h : s.Granted ask sub sup) : s.Granted ask' sub sup := by
  obtain ⟨premises, hrule, hpremises⟩ := h
  refine ⟨premises, hrule, ?_⟩
  intro q hq
  exact hask premises hrule q hq (hpremises q hq)

end Granted

/-! ## A round grants what the rules grant -/

theorem granted_of_stepByForm (hsub : sub.isUnion = false)
    (h : s.stepByForm ask sub sup = true) : s.Granted ask sub sup := by
  unfold stepByForm at h
  split at h
  · rename_i c sub
    rw [Bool.or_eq_true] at h
    rcases h with h | h
    · split at h
      · exact .of_fact (.hierarchy (of_decide_eq_true h))
      · exact absurd h (by simp)
    · rw [List.any_eq_true] at h
      obtain ⟨e, he, hask⟩ := h
      rw [List.mem_filter, Option.isNone_iff_eq_none] at he
      exact .of_single (.definition hsub he.1 he.2) hask
  · rw [Bool.and_eq_true] at h
    exact .of_single (.someOf_someOf h.1) h.2
  · rw [Bool.and_eq_true, Bool.and_eq_true, decide_eq_true_eq] at h
    exact .of_fact (.someOf_atLeast h.1.1 h.1.2 h.2)
  · rw [Bool.and_eq_true, Bool.and_eq_true, decide_eq_true_eq] at h
    exact .of_fact (.someOf_exactly h.1.1 h.1.2 h.2)
  · rw [Bool.and_eq_true] at h
    exact .of_single (.someOf_valueOf h.1) h.2
  · rw [Bool.and_eq_true] at h
    exact .of_single (.onlyOf_onlyOf h.1) h.2
  · exact .of_fact (.atLeast_zero hsub)
  · rw [Bool.and_eq_true, decide_eq_true_eq] at h
    exact .of_fact (.atLeast_atLeast h.1 h.2)
  · rw [Bool.and_eq_true, decide_eq_true_eq] at h
    exact .of_fact (.atLeast_exactly h.1 h.2)
  · exact .of_fact (.atLeast_someOf h)
  · exact .of_fact (.atLeast_valueOf h)
  · rw [Bool.and_eq_true, decide_eq_true_eq] at h
    exact .of_fact (.atMost_atMost h.1 h.2)
  · rw [Bool.and_eq_true, decide_eq_true_eq] at h
    exact .of_fact (.atMost_exactly h.1 h.2)
  · rw [Bool.and_eq_true, decide_eq_true_eq, decide_eq_true_eq] at h
    obtain ⟨rfl, rfl⟩ := h
    exact .of_fact .exactly_exactly
  · exact .of_fact (.selfOf_selfOf h)
  · rw [Bool.and_eq_true, decide_eq_true_eq] at h
    obtain ⟨rfl, h⟩ := h
    exact .of_fact (.valueOf_valueOf h)
  · rw [Bool.and_eq_true, decide_eq_true_eq] at h
    obtain ⟨rfl, h⟩ := h
    exact .of_fact (.valueOf_someOf h)
  · exact .of_single .compl_compl h
  · exact .of_fact (.disjoint h)
  · exact absurd h (by simp)

theorem granted_of_stepByTold (hsup : sup.isIntersection = false)
    (h : s.stepByTold ask sub sup = true) : s.Granted ask sub sup := by
  unfold stepByTold at h
  split at h
  · rw [List.any_eq_true] at h
    obtain ⟨e, he, hask⟩ := h
    exact .of_single (.part hsup he) hask
  · rw [List.any_eq_true] at h
    obtain ⟨e, he, hask⟩ := h
    exact .of_single (.told hsup he) hask
  · rw [List.any_eq_true] at h
    obtain ⟨t, ht, hask⟩ := h
    exact .of_single (.type hsup ht) hask
  · exact absurd h (by simp)

theorem granted_of_step (h : s.step ask sub sup = true) : s.Granted ask sub sup := by
  unfold step at h
  split at h
  · rw [List.all_eq_true] at h
    exact ⟨_, .leftUnion, List.forall_mem_map.mpr h⟩
  · rename_i parts hsub
    rw [List.all_eq_true] at h
    exact ⟨_, .rightIntersection (Expression.isUnion_eq_false hsub), List.forall_mem_map.mpr h⟩
  · rename_i branches hsub
    rw [Bool.or_eq_true, List.any_eq_true] at h
    rcases h with ⟨e, he, hask⟩ | h
    · exact .of_single (.rightUnion (Expression.isUnion_eq_false hsub) he) hask
    · exact granted_of_stepByTold rfl h
  · rename_i hsub hsup _
    rw [Bool.or_eq_true] at h
    rcases h with h | h
    · exact granted_of_stepByForm (Expression.isUnion_eq_false hsub) h
    · exact granted_of_stepByTold (Expression.isIntersection_eq_false hsup) h

theorem step_of_stepByForm (hsub : sub.isUnion = false) (h : s.stepByForm ask sub sup = true) :
    s.step ask sub sup = true := by
  unfold step
  split
  · exact absurd hsub (by simp [Expression.isUnion])
  -- there is no rule by form for an intersection or a union on the right
  · simp [stepByForm] at h
  · simp [stepByForm] at h
  · rw [h, Bool.true_or]

theorem step_of_stepByTold (hsub : sub.isUnion = false) (hsup : sup.isIntersection = false)
    (h : s.stepByTold ask sub sup = true) : s.step ask sub sup = true := by
  unfold step
  split
  · exact absurd hsub (by simp [Expression.isUnion])
  · exact absurd hsup (by simp [Expression.isIntersection])
  · rw [h, Bool.or_true]
  · rw [h, Bool.or_true]

theorem step_rightIntersection {parts : List Expression} (hsub : sub.isUnion = false) :
    s.step ask sub (.conj parts) = parts.all (ask sub ·) := by
  cases sub with
  | disj branches => exact absurd hsub (by simp [Expression.isUnion])
  | _ => rfl

theorem step_rightUnion {branches : List Expression} (hsub : sub.isUnion = false) :
    s.step ask sub (.disj branches) =
      (branches.any (ask sub ·) || s.stepByTold ask sub (.disj branches)) := by
  cases sub with
  | disj branches => exact absurd hsub (by simp [Expression.isUnion])
  | _ => rfl

theorem step_of_rule {premises : List (Expression × Expression)}
    (hrule : s.Rule premises sub sup) (hask : ∀ q ∈ premises, ask q.1 q.2 = true) :
    s.step ask sub sup = true := by
  cases hrule with
  | leftUnion =>
    rw [step, List.all_eq_true]
    exact List.forall_mem_map.mp hask
  | rightIntersection hsub =>
    rw [step_rightIntersection hsub, List.all_eq_true]
    exact List.forall_mem_map.mp hask
  | rightUnion hsub he =>
    rw [step_rightUnion hsub, Bool.or_eq_true, List.any_eq_true]
    exact Or.inl ⟨_, he, hask _ List.mem_cons_self⟩
  -- by the form of the right side
  | hierarchy h => exact step_of_stepByForm rfl (by simp [stepByForm, h])
  | definition hsub he hnode =>
    apply step_of_stepByForm hsub
    simp only [stepByForm, Bool.or_eq_true, List.any_eq_true]
    refine Or.inr ⟨_, ?_, hask _ List.mem_cons_self⟩
    rw [List.mem_filter, Option.isNone_iff_eq_none]
    exact ⟨he, hnode⟩
  | someOf_someOf h =>
    exact step_of_stepByForm rfl (by simpa [stepByForm, h] using hask)
  | someOf_atLeast hn htop h => exact step_of_stepByForm rfl (by simp [stepByForm, hn, htop, h])
  | someOf_exactly hn htop h => exact step_of_stepByForm rfl (by simp [stepByForm, hn, htop, h])
  | someOf_valueOf h => exact step_of_stepByForm rfl (by simpa [stepByForm, h] using hask)
  | onlyOf_onlyOf h => exact step_of_stepByForm rfl (by simpa [stepByForm, h] using hask)
  | atLeast_zero hsub => exact step_of_stepByForm hsub (by simp [stepByForm])
  | @atLeast_atLeast p q m n hn h =>
    apply step_of_stepByForm rfl
    cases n <;> simp [stepByForm, hn, h]
  | @atLeast_exactly p q m n hn h =>
    apply step_of_stepByForm rfl
    cases n <;> simp [stepByForm, hn, h]
  | atLeast_someOf h => exact step_of_stepByForm rfl (by simp [stepByForm, h])
  | atLeast_valueOf h => exact step_of_stepByForm rfl (by simp [stepByForm, h])
  | atMost_atMost hn h => exact step_of_stepByForm rfl (by simp [stepByForm, hn, h])
  | atMost_exactly hn h => exact step_of_stepByForm rfl (by simp [stepByForm, hn, h])
  | exactly_exactly => exact step_of_stepByForm rfl (by simp [stepByForm])
  | selfOf_selfOf h => exact step_of_stepByForm rfl (by simp [stepByForm, h])
  | valueOf_valueOf h => exact step_of_stepByForm rfl (by simp [stepByForm, h])
  | valueOf_someOf h => exact step_of_stepByForm rfl (by simp [stepByForm, h])
  | compl_compl => exact step_of_stepByForm rfl (by simpa [stepByForm] using hask)
  | disjoint h => exact step_of_stepByForm rfl (by simp [stepByForm, h])
  -- by what contains the left side
  | part hsup he =>
    apply step_of_stepByTold rfl hsup
    rw [stepByTold, List.any_eq_true]
    exact ⟨_, he, hask _ List.mem_cons_self⟩
  | told hsup he =>
    apply step_of_stepByTold rfl hsup
    rw [stepByTold, List.any_eq_true]
    exact ⟨_, he, hask _ List.mem_cons_self⟩
  | type hsup ht =>
    apply step_of_stepByTold rfl hsup
    rw [stepByTold, List.any_eq_true]
    exact ⟨_, ht, hask _ List.mem_cons_self⟩

/-- A round of the rules accepts a pair exactly when some rule for the pair has all that it asks for
accepted. -/
theorem step_iff : s.step ask sub sup = true ↔ s.Granted ask sub sup := by
  constructor
  · exact granted_of_step
  · rintro ⟨premises, hrule, hask⟩
    exact step_of_rule hrule hask

/-- One class is contained in another by the told hierarchy, by a definition of the second one, or
by what is told to contain the first one. -/
theorem step_concept_iff {c d : Term} : s.step ask (.concept c) (.concept d) = true ↔
    d ∈ s.toldSupers c ∨
      (∃ e ∈ s.equivalentClasses d, e.concept? = none ∧ ask (.concept c) e = true) ∨
      ∃ e ∈ s.superClasses c ++ s.equivalentClasses c, ask e (.concept d) = true := by
  change (decide (d ∈ s.toldSupers c) ||
    ((s.equivalentClasses d).filter (·.concept?.isNone)).any (ask (.concept c)) ||
      (s.superClasses c ++ s.equivalentClasses c).any (ask · (.concept d))) = true ↔ _
  rw [Bool.or_eq_true, Bool.or_eq_true, decide_eq_true_eq, or_assoc, List.any_eq_true,
    List.any_eq_true]
  simp only [List.mem_filter, Option.isNone_iff_eq_none, and_assoc]

theorem entails_succ_iff {n : Nat} {path : List (Expression × Expression)} :
    s.entails (n + 1) path sub sup = true ↔ holdsAnyway sub sup = true ∨
      (sub, sup) ∉ path ∧ s.step (s.entails n ((sub, sup) :: path)) sub sup = true := by
  rw [entails, Bool.or_eq_true, Bool.and_eq_true, decide_eq_true_eq]

/-- A pair that is not being decided is entailed when one more round derives it. -/
theorem entails_of_step {n : Nat} {path : List (Expression × Expression)}
    (hpath : (sub, sup) ∉ path) (h : s.step (s.entails n ((sub, sup) :: path)) sub sup = true) :
    s.entails (n + 1) path sub sup = true :=
  entails_succ_iff.mpr (Or.inr ⟨hpath, h⟩)

/-- What the told hierarchy says of two classes is entailed in one round. -/
theorem entails_of_mem_toldSupers {n : Nat} {path : List (Expression × Expression)} {c d : Term}
    (hpath : (.concept c, .concept d) ∉ path) (h : d ∈ s.toldSupers c) :
    s.entails (n + 1) path (.concept c) (.concept d) = true :=
  entails_of_step hpath (step_concept_iff.mpr (Or.inl h))

/-! ## Derivations -/

theorem holdsAnyway_iff : holdsAnyway sub sup = true ↔ sub = sup ∨ sup = .top ∨ sub = .bottom := by
  have htop : sup.isTop = true ↔ sup = .top := by
    cases sup <;> simp [Expression.isTop]
  rw [holdsAnyway, Bool.or_eq_true, Bool.or_eq_true, decide_eq_true_eq, decide_eq_true_eq, htop,
    or_assoc]

/-- What the rules derive: the least relation that contains what holds anyway and is closed under
the rules. -/
inductive Derives (s : Store) : Expression → Expression → Prop where
  | refl (e : Expression) : Derives s e e
  | top (e : Expression) : Derives s e .top
  | bottom (e : Expression) : Derives s .bottom e
  | rule {premises : List (Expression × Expression)} {sub sup : Expression}
      (h : s.Rule premises sub sup) (hpremises : ∀ q ∈ premises, Derives s q.1 q.2) :
      Derives s sub sup

namespace Derives

theorem of_holdsAnyway (h : holdsAnyway sub sup = true) : s.Derives sub sup := by
  rcases holdsAnyway_iff.mp h with rfl | rfl | rfl
  · exact .refl sub
  · exact .top sub
  · exact .bottom sup

theorem of_step (hask : ∀ e f, ask e f = true → s.Derives e f) (h : s.step ask sub sup = true) :
    s.Derives sub sup := by
  obtain ⟨premises, hrule, hpremises⟩ := step_iff.mp h
  refine .rule hrule ?_
  intro q hq
  exact hask q.1 q.2 (hpremises q hq)

/-- Derivations lie in every relation that contains what holds anyway and that a round keeps. -/
theorem of_closed (hanyway : ∀ e f, holdsAnyway e f = true → ask e f = true)
    (hstep : ∀ e f, s.step ask e f = true → ask e f = true) (h : s.Derives sub sup) :
    ask sub sup = true := by
  induction h with
  | refl e => exact hanyway e e (holdsAnyway_iff.mpr (Or.inl rfl))
  | top e => exact hanyway e .top (holdsAnyway_iff.mpr (Or.inr (Or.inl rfl)))
  | bottom e => exact hanyway .bottom e (holdsAnyway_iff.mpr (Or.inr (Or.inr rfl)))
  | rule h _ ih => exact hstep _ _ (step_of_rule h ih)

end Derives

open Classical in
/-- A round over what is derived derives nothing new, and loses nothing. -/
theorem derives_iff : s.Derives sub sup ↔
    holdsAnyway sub sup = true ∨ s.step (fun e f => decide (s.Derives e f)) sub sup = true := by
  constructor
  · intro h
    cases h with
    | refl e => exact Or.inl (holdsAnyway_iff.mpr (Or.inl rfl))
    | top e => exact Or.inl (holdsAnyway_iff.mpr (Or.inr (Or.inl rfl)))
    | bottom e => exact Or.inl (holdsAnyway_iff.mpr (Or.inr (Or.inr rfl)))
    | rule h hpremises =>
      refine Or.inr (step_of_rule h ?_)
      intro q hq
      exact decide_eq_true (hpremises q hq)
  · rintro (h | h)
    · exact .of_holdsAnyway h
    · exact .of_step (fun _ _ => of_decide_eq_true) h

end Store

end GraphConformance
