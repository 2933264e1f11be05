import GraphConformance.Proofs.Evidence.Round
import GraphConformance.Knowledge.Basic
import Mathlib.Data.Set.Lattice

/-!
# Closed-world evaluation, rule by rule

`Knowledge.Evaluates` says what the membership of an individual in an expression comes to, by what
is asserted and nothing else. There are one or two rules for each form of expression; what is found
is a set of statements, and no rule mentions a memory or a path of classes.

The rules leave no choice: an intersection that fails may fail by several of its parts, but no pair
of an expression and an individual has two answers (`Knowledge.Evaluates.unique`).
-/

set_option autoImplicit false

namespace GraphConformance

open Vocabulary Evidence

/-- What is found, as a set of statements. -/
def Finding.statements (finding : Finding) : Option (Set Triple) :=
  finding.map fun found => {t | t ∈ found}

/-- The restrictions that are decided by the asserted values of a property. -/
def Expression.needsValues : Expression → Bool
  | .someOf .. => true
  | .onlyOf .. => true
  | .atLeast .. => true
  | .atMost .. => true
  | .exactly .. => true
  | .selfOf _ => true
  | _ => false

variable {k : Knowledge}

namespace Knowledge

/-- The asserted values of a property, in order. A literal has none, and of an individual that is
not mentioned nothing is known. -/
def values? (k : Knowledge) (property individual : Term) : Option (List Term) :=
  if individual.isIndividual then
    if k.store.mentions individual then
      some ((k.store.triples.filter fun t => t.subject = individual ∧ t.predicate = property).map
        Triple.object)
    else none
  else some []

/-- Some asserted type of the individual is the class, or is subsumed by it. -/
def IsMember (k : Knowledge) (individual c : Term) : Prop :=
  ∃ t ∈ k.store.types individual, t = c ∨ k.subsumes (typeExpression t) (.concept c) = true

/-- The expressions that a class is told to be part of, or equivalent to. -/
def definitions (k : Knowledge) (c : Term) : List Expression :=
  k.store.superClasses c ++ k.store.equivalentClasses c

/-- The statements that lead from an individual to values of a property. -/
def edgesTo (individual property : Term) (vs : List Term) : Set Triple :=
  {t | ∃ v ∈ vs, t = ⟨individual, property, v⟩}

/-- Membership by what is asserted: the set of statements that witness it, or none when it fails. -/
inductive Evaluates (k : Knowledge) : Expression → Term → Option (Set Triple) → Prop where
  | top {x : Term} : Evaluates k .top x (some ∅)
  | bottom {x : Term} : Evaluates k .bottom x none
  | valueOf {p v x : Term} : Evaluates k (.valueOf p v) x (some ∅)
  | nominal {a x : Term} : Evaluates k (.nominal a) x (some ∅)
  -- an intersection needs all its parts
  | conj {parts : List Expression} {x : Term} {found : Expression → Set Triple}
      (h : ∀ e ∈ parts, Evaluates k e x (some (found e))) :
      Evaluates k (.conj parts) x (some (⋃ e ∈ parts, found e))
  | conj_none {parts : List Expression} {e : Expression} {x : Term} (he : e ∈ parts)
      (h : Evaluates k e x none) : Evaluates k (.conj parts) x none
  -- a union needs one branch, and counts all that hold
  | disj {branches : List Expression} {x : Term} {finding : Expression → Option (Set Triple)}
      (h : ∀ e ∈ branches, Evaluates k e x (finding e)) (hsome : ∃ e ∈ branches, finding e ≠ none) :
      Evaluates k (.disj branches) x (some (⋃ e ∈ branches, (finding e).getD ∅))
  | disj_none {branches : List Expression} {x : Term} (h : ∀ e ∈ branches, Evaluates k e x none) :
      Evaluates k (.disj branches) x none
  -- a complement turns failure into success
  | compl {e : Expression} {x : Term} (h : Evaluates k e x none) :
      Evaluates k (.compl e) x (some ∅)
  | compl_none {e : Expression} {x : Term} {found : Set Triple} (h : Evaluates k e x (some found)) :
      Evaluates k (.compl e) x none
  -- the first value that belongs to the filler counts
  | someOf {p x v : Term} {filler : Expression} {before after : List Term} {found : Set Triple}
      (hvs : k.values? p x = some (before ++ v :: after))
      (hbefore : ∀ w ∈ before, Evaluates k filler w none)
      (h : Evaluates k filler v (some found)) :
      Evaluates k (.someOf p filler) x (some (insert ⟨x, p, v⟩ found))
  | someOf_none {p x : Term} {filler : Expression} {vs : List Term} (hvs : k.values? p x = some vs)
      (h : ∀ v ∈ vs, Evaluates k filler v none) : Evaluates k (.someOf p filler) x none
  -- every value has to belong to the filler
  | onlyOf {p x : Term} {filler : Expression} {vs : List Term} {found : Term → Set Triple}
      (hvs : k.values? p x = some vs) (h : ∀ v ∈ vs, Evaluates k filler v (some (found v))) :
      Evaluates k (.onlyOf p filler) x (some (⋃ v ∈ vs, insert ⟨x, p, v⟩ (found v)))
  | onlyOf_none {p x v : Term} {filler : Expression} {vs : List Term}
      (hvs : k.values? p x = some vs) (hv : v ∈ vs) (h : Evaluates k filler v none) :
      Evaluates k (.onlyOf p filler) x none
  -- values are counted, and of the upper bounds only zero is looked at
  | atLeast {p x : Term} {n : Nat} {vs : List Term} (hvs : k.values? p x = some vs)
      (h : n ≤ vs.length) : Evaluates k (.atLeast p n) x (some (edgesTo x p vs))
  | atLeast_none {p x : Term} {n : Nat} {vs : List Term} (hvs : k.values? p x = some vs)
      (h : vs.length < n) : Evaluates k (.atLeast p n) x none
  | atMost {p x : Term} {n : Nat} {vs : List Term} (hvs : k.values? p x = some vs)
      (h : n = 0 → vs = []) : Evaluates k (.atMost p n) x (some (edgesTo x p vs))
  | atMost_none {p x : Term} {vs : List Term} (hvs : k.values? p x = some vs) (h : vs ≠ []) :
      Evaluates k (.atMost p 0) x none
  | exactly {p x : Term} {n : Nat} {vs : List Term} (hvs : k.values? p x = some vs)
      (hlow : n ≤ vs.length) (hhigh : n = 0 → vs = []) :
      Evaluates k (.exactly p n) x (some (edgesTo x p vs))
  | exactly_none {p x : Term} {n : Nat} {vs : List Term} (hvs : k.values? p x = some vs)
      (h : vs.length < n ∨ n = 0 ∧ vs ≠ []) : Evaluates k (.exactly p n) x none
  | selfOf {p x : Term} {vs : List Term} (hvs : k.values? p x = some vs) (h : x ∈ vs) :
      Evaluates k (.selfOf p) x (some {⟨x, p, x⟩})
  | selfOf_none {p x : Term} {vs : List Term} (hvs : k.values? p x = some vs) (h : x ∉ vs) :
      Evaluates k (.selfOf p) x none
  -- without knowledge of the individual, every restriction fails but the one to a given value
  | unmentioned {e : Expression} {x : Term} (he : e.needsValues = true)
      (hx : x.isIndividual = true) (h : k.store.mentions x = false) : Evaluates k e x none
  -- a literal belongs to the class of all literals and to its datatype
  | datatype {c : Term} {l : Literal} (h : c = .iri Rdfs.literal ∨ c = .iri l.effectiveDatatype) :
      Evaluates k (.concept c) (.literal l) (some ∅)
  | datatype_none {c : Term} {l : Literal}
      (h : ¬ (c = .iri Rdfs.literal ∨ c = .iri l.effectiveDatatype)) :
      Evaluates k (.concept c) (.literal l) none
  -- a class needs membership or an equivalent, and then all that it is told to be
  | concept_unmentioned {c x : Term} (hx : x.isIndividual = true)
      (h : k.store.mentions x = false) : Evaluates k (.concept c) x none
  | concept_not_member {c x : Term} (hx : x.isIndividual = true) (hm : ¬ k.IsMember x c)
      (h : k.store.equivalentClasses c = []) : Evaluates k (.concept c) x none
  | concept {c x : Term} {found : Expression → Set Triple} (hx : x.isIndividual = true)
      (hmentions : k.store.mentions x = true)
      (hm : k.IsMember x c ∨ k.store.equivalentClasses c ≠ [])
      (h : ∀ d ∈ k.definitions c, Evaluates k d x (some (found d))) :
      Evaluates k (.concept c) x
        (some ({t | k.IsMember x c ∧ t = ⟨x, .iri Rdf.type, c⟩} ∪ ⋃ d ∈ k.definitions c, found d))
  | concept_none {c x : Term} {d : Expression} (hx : x.isIndividual = true)
      (hd : d ∈ k.definitions c) (h : Evaluates k d x none) : Evaluates k (.concept c) x none

/-! ## The rules leave no choice -/

/-- Two ways to split a list at an element either agree, or one element stands before the other. -/
theorem split_cases {α : Type} {before before' after after' : List α} {v v' : α}
    (h : before ++ v :: after = before' ++ v' :: after') :
    v = v' ∨ v ∈ before' ∨ v' ∈ before := by
  rcases List.append_eq_append_iff.mp h with ⟨more, rfl, hmore⟩ | ⟨more, rfl, hmore⟩
  · cases more with
    | nil => exact Or.inl (List.cons.inj hmore).1
    | cons w more =>
      obtain ⟨rfl, -⟩ := List.cons.inj hmore
      exact Or.inr (Or.inl (by simp))
  · cases more with
    | nil => exact Or.inl (List.cons.inj hmore).1.symm
    | cons w more =>
      obtain ⟨rfl, -⟩ := List.cons.inj hmore
      exact Or.inr (Or.inr (by simp))

variable {k : Knowledge} {e : Expression} {x : Term} {finding finding' : Option (Set Triple)}

/-- Nothing is known of the values of an individual that is not mentioned. -/
theorem values?_of_not_mentions (p : Term) (hx : x.isIndividual = true)
    (h : k.store.mentions x = false) : k.values? p x = none := by
  rw [values?, if_pos hx, h, if_neg Bool.false_ne_true]

/-- Values are known, so the individual is mentioned. -/
theorem mentions_of_values? {p : Term} {vs : List Term} (hx : x.isIndividual = true)
    (hvs : k.values? p x = some vs) : k.store.mentions x ≠ false := by
  intro h
  rw [values?_of_not_mentions p hx h] at hvs
  exact absurd hvs (by simp)

/-- Of an individual that is not mentioned no restriction holds that looks at values. -/
theorem Evaluates.eq_none_of_not_mentions (he : e.needsValues = true) (hx : x.isIndividual = true)
    (hm : k.store.mentions x = false) (h : k.Evaluates e x finding) : finding = none := by
  cases h with
  | top => exact nomatch he
  | valueOf => exact nomatch he
  | nominal => exact nomatch he
  | conj => exact nomatch he
  | disj => exact nomatch he
  | compl => exact nomatch he
  | concept => exact nomatch he
  | datatype => exact nomatch he
  | someOf hvs => exact absurd hm (mentions_of_values? hx hvs)
  | onlyOf hvs => exact absurd hm (mentions_of_values? hx hvs)
  | atLeast hvs => exact absurd hm (mentions_of_values? hx hvs)
  | atMost hvs => exact absurd hm (mentions_of_values? hx hvs)
  | exactly hvs => exact absurd hm (mentions_of_values? hx hvs)
  | selfOf hvs => exact absurd hm (mentions_of_values? hx hvs)
  | _ => rfl

/-! The forms without parts are decided by the values alone. -/

theorem Evaluates.atLeast_eq {p : Term} {n : Nat} (h : k.Evaluates (.atLeast p n) x finding) :
    finding = (k.values? p x).bind fun vs =>
      if vs.length < n then none else some (edgesTo x p vs) := by
  cases h with
  | atLeast hvs h => rw [hvs, Option.bind_some, if_neg (Nat.not_lt.mpr h)]
  | atLeast_none hvs h => rw [hvs, Option.bind_some, if_pos h]
  | unmentioned _ hx hm => rw [values?_of_not_mentions p hx hm, Option.bind_none]

theorem Evaluates.atMost_eq {p : Term} {n : Nat} (h : k.Evaluates (.atMost p n) x finding) :
    finding = (k.values? p x).bind fun vs =>
      if n = 0 → vs = [] then some (edgesTo x p vs) else none := by
  cases h with
  | atMost hvs h => rw [hvs, Option.bind_some, if_pos h]
  | atMost_none hvs h => rw [hvs, Option.bind_some, if_neg fun hall => h (hall rfl)]
  | unmentioned _ hx hm => rw [values?_of_not_mentions p hx hm, Option.bind_none]

theorem Evaluates.exactly_eq {p : Term} {n : Nat} (h : k.Evaluates (.exactly p n) x finding) :
    finding = (k.values? p x).bind fun vs =>
      if vs.length < n ∨ n = 0 ∧ vs ≠ [] then none else some (edgesTo x p vs) := by
  cases h with
  | @exactly _ _ _ vs hvs hlow hhigh =>
    have hgood : ¬ (vs.length < n ∨ n = 0 ∧ vs ≠ []) := by
      rintro (hless | ⟨hn, hne⟩)
      · omega
      · exact hne (hhigh hn)
    rw [hvs, Option.bind_some, if_neg hgood]
  | exactly_none hvs h => rw [hvs, Option.bind_some, if_pos h]
  | unmentioned _ hx hm => rw [values?_of_not_mentions p hx hm, Option.bind_none]

theorem Evaluates.selfOf_eq {p : Term} (h : k.Evaluates (.selfOf p) x finding) :
    finding = (k.values? p x).bind fun vs => if x ∈ vs then some {⟨x, p, x⟩} else none := by
  cases h with
  | selfOf hvs h => rw [hvs, Option.bind_some, if_pos h]
  | selfOf_none hvs h => rw [hvs, Option.bind_some, if_neg h]
  | unmentioned _ hx hm => rw [values?_of_not_mentions p hx hm, Option.bind_none]

theorem Evaluates.literal_eq {c : Term} {l : Literal}
    (h : k.Evaluates (.concept c) (.literal l) finding) :
    finding = if c = .iri Rdfs.literal ∨ c = .iri l.effectiveDatatype then some ∅ else none := by
  cases h with
  | datatype h => rw [if_pos h]
  | datatype_none h => rw [if_neg h]
  | concept hx => exact nomatch hx
  | concept_unmentioned hx => exact nomatch hx
  | concept_not_member hx => exact nomatch hx
  | concept_none hx => exact nomatch hx
  | unmentioned he => exact nomatch he

/-- The rules give at most one answer. -/
theorem Evaluates.unique (h : k.Evaluates e x finding) (h' : k.Evaluates e x finding') :
    finding = finding' := by
  induction h generalizing finding' with
  | top => cases h' with
    | top => rfl
    | unmentioned he => exact nomatch he
  | bottom => cases h' <;> rfl
  | valueOf => cases h' with
    | valueOf => rfl
    | unmentioned he => exact nomatch he
  | nominal => cases h' with
    | nominal => rfl
    | unmentioned he => exact nomatch he
  | conj h ih => cases h' with
    | conj h' =>
      congr 1
      exact Set.iUnion₂_congr fun e he => Option.some.inj (ih e he (h' e he))
    | conj_none he h' => exact absurd (ih _ he h') (by simp)
    | unmentioned he => exact nomatch he
  | conj_none he h ih => cases h' with
    | conj h' => exact absurd (ih (h' _ he)) (by simp)
    | conj_none => rfl
    | unmentioned => rfl
  | disj h hsome ih => cases h' with
    | disj h' hsome' =>
      congr 1
      exact Set.iUnion₂_congr fun e he => by rw [ih e he (h' e he)]
    | disj_none h' =>
      obtain ⟨e, he, hne⟩ := hsome
      exact absurd (ih e he (h' e he)) hne
    | unmentioned he => exact nomatch he
  | disj_none h ih => cases h' with
    | disj h' hsome' =>
      obtain ⟨e, he, hne⟩ := hsome'
      exact absurd (ih e he (h' e he)).symm hne
    | disj_none => rfl
    | unmentioned => rfl
  | compl h ih => cases h' with
    | compl => rfl
    | compl_none h' => exact absurd (ih h') (by simp)
    | unmentioned he => exact nomatch he
  | compl_none h ih => cases h' with
    | compl h' => exact absurd (ih h') (by simp)
    | compl_none => rfl
    | unmentioned => rfl
  | someOf hvs hbefore h ihbefore ih => cases h' with
    | someOf hvs' hbefore' h' =>
      -- the first value of one rule cannot stand before that of the other
      rcases split_cases (Option.some.inj (hvs.symm.trans hvs')) with rfl | hv | hv
      · rw [Option.some.inj (ih h')]
      · exact absurd (ih (hbefore' _ hv)) (by simp)
      · exact absurd (ihbefore _ hv h') (by simp)
    | someOf_none hvs' h' =>
      obtain rfl := Option.some.inj (hvs.symm.trans hvs')
      exact absurd (ih (h' _ (by simp))) (by simp)
    | unmentioned _ hx hm => exact absurd hm (mentions_of_values? hx hvs)
  | someOf_none hvs h ih => cases h' with
    | someOf hvs' hbefore' h' =>
      obtain rfl := Option.some.inj (hvs.symm.trans hvs')
      exact absurd (ih _ (by simp) h') (by simp)
    | someOf_none => rfl
    | unmentioned => rfl
  | onlyOf hvs h ih => cases h' with
    | onlyOf hvs' h' =>
      obtain rfl := Option.some.inj (hvs.symm.trans hvs')
      congr 1
      exact Set.iUnion₂_congr fun v hv => by rw [Option.some.inj (ih v hv (h' v hv))]
    | onlyOf_none hvs' hv h' =>
      obtain rfl := Option.some.inj (hvs.symm.trans hvs')
      exact absurd (ih _ hv h') (by simp)
    | unmentioned _ hx hm => exact absurd hm (mentions_of_values? hx hvs)
  | onlyOf_none hvs hv h ih => cases h' with
    | onlyOf hvs' h' =>
      obtain rfl := Option.some.inj (hvs.symm.trans hvs')
      exact absurd (ih (h' _ hv)) (by simp)
    | onlyOf_none => rfl
    | unmentioned => rfl
  | atLeast hvs h => rw [(atLeast hvs h).atLeast_eq, h'.atLeast_eq]
  | atLeast_none hvs h => rw [(atLeast_none hvs h).atLeast_eq, h'.atLeast_eq]
  | atMost hvs h => rw [(atMost hvs h).atMost_eq, h'.atMost_eq]
  | atMost_none hvs h => rw [(atMost_none hvs h).atMost_eq, h'.atMost_eq]
  | exactly hvs hlow hhigh => rw [(exactly hvs hlow hhigh).exactly_eq, h'.exactly_eq]
  | exactly_none hvs h => rw [(exactly_none hvs h).exactly_eq, h'.exactly_eq]
  | selfOf hvs h => rw [(selfOf hvs h).selfOf_eq, h'.selfOf_eq]
  | selfOf_none hvs h => rw [(selfOf_none hvs h).selfOf_eq, h'.selfOf_eq]
  | unmentioned he hx hm => exact (h'.eq_none_of_not_mentions he hx hm).symm
  | datatype h => rw [h'.literal_eq, if_pos h]
  | datatype_none h => rw [h'.literal_eq, if_neg h]
  | concept_unmentioned hx hm => cases h' with
    | datatype => exact nomatch hx
    | concept _ hm' => exact absurd (hm.symm.trans hm') Bool.false_ne_true
    | _ => rfl
  | concept_not_member hx hm hnone => cases h' with
    | datatype => exact nomatch hx
    | concept _ _ hsome =>
      rcases hsome with hm' | hne
      · exact absurd hm' hm
      · exact absurd hnone hne
    | _ => rfl
  | concept hx hmentions hm h ih => cases h' with
    | datatype => exact nomatch hx
    | datatype_none => exact nomatch hx
    | concept _ _ _ h' =>
      congr 2
      exact Set.iUnion₂_congr fun d hd => Option.some.inj (ih d hd (h' d hd))
    | concept_unmentioned _ hm' => exact absurd (hm'.symm.trans hmentions) Bool.false_ne_true
    | concept_not_member _ hm' hnone =>
      rcases hm with hm | hne
      · exact absurd hm hm'
      · exact absurd hnone hne
    | concept_none _ hd h' => exact absurd (ih _ hd h') (by simp)
    | unmentioned he => exact nomatch he
  | concept_none hx hd h ih => cases h' with
    | datatype => exact nomatch hx
    | concept _ _ _ h' => exact absurd (ih (h' _ hd)) (by simp)
    | _ => rfl

end Knowledge

end GraphConformance
