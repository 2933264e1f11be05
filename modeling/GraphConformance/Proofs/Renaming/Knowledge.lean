import GraphConformance.Mapping.Kind
import GraphConformance.Proofs.Knowledge.Profiles
import GraphConformance.Proofs.Renaming.Stores

/-!
# Renamed knowledge

Knowledge over a renamed store decides about renamed expressions and individuals as it decides about
the old ones: told closures, containment, consistency, profiles and acceptance only compare terms.
A refused question names the renamed individual, and a clash is reported in the same words.
-/

set_option autoImplicit false

namespace GraphConformance

open Vocabulary Knowledge

variable {ρ : BlankNode ↪ BlankNode}

namespace Store.Renamed

variable {s s' : Store} (h : s.Renamed ρ s')

include h

/-! ## Told closures -/

theorem search {next next' : Term → List Term}
    (hnext : ∀ x, next' (x.rename ρ) = (next x).map (Term.rename ρ)) (stack seen : List Term) :
    s'.search next' (stack.map (Term.rename ρ)) (seen.map (Term.rename ρ)) =
      (s.search next stack seen).map (Term.rename ρ) := by
  have hmem : ∀ {seen : List Term} {x : Term},
      x.rename ρ ∈ seen.map (Term.rename ρ) ↔ x ∈ seen :=
    List.mem_map_of_injective (Term.rename_injective ρ)
  -- along the search: a renamed term is on the list exactly if the term is, so both branch alike
  fun_induction s.search next stack seen with
  | case1 seen => rw [List.map_nil, Store.search]
  | case2 seen x rest hx ih => rw [List.map_cons, Store.search, dif_pos (hmem.mpr hx), ih]
  | case3 seen x rest hx hm _ ih =>
    rw [List.map_append, List.map_reverse, List.map_append, List.map_singleton] at ih
    rw [List.map_cons, Store.search, dif_neg (mt hmem.mp hx), dif_pos ((h.mentions x).trans hm),
      hnext, ih]
  | case4 seen x rest hx hm _ ih =>
    rw [List.map_cons, Store.search, dif_neg (mt hmem.mp hx),
      dif_neg (by rwa [h.mentions x]), ← ih, List.map_append, List.map_singleton]

theorem nextSupers (c : Term) :
    s'.nextSupers (c.rename ρ) = (s.nextSupers c).map (Term.rename ρ) := by
  rw [Store.nextSupers, h.objects, h.objects, h.subjects, ← List.map_append, ← List.map_append,
    List.filter_map, Store.nextSupers]
  simp only [Function.comp_def, Term.isIri_rename]

theorem toldSupers (c : Term) :
    s'.toldSupers (c.rename ρ) = (s.toldSupers c).map (Term.rename ρ) :=
  h.search h.nextSupers [c] []

theorem nextSuperProperties (p : Term) :
    s'.nextSuperProperties (p.rename ρ) = (s.nextSuperProperties p).map (Term.rename ρ) := by
  rw [Store.nextSuperProperties, h.objects, h.objects, h.subjects, ← List.map_append,
    ← List.map_append, Store.nextSuperProperties]

theorem isSubProperty (p q : Term) :
    s'.isSubProperty (p.rename ρ) (q.rename ρ) = s.isSubProperty p q := by
  have hsearch := h.search h.nextSuperProperties [p] []
  rw [Store.isSubProperty, Store.isSubProperty]
  simp only [List.map_cons, List.map_nil] at hsearch
  simp only [hsearch, Term.rename_inj, List.mem_map_of_injective (Term.rename_injective ρ)]

theorem toldDisjoint (c excluded : Term) :
    s'.toldDisjoint (c.rename ρ) (excluded.rename ρ) = s.toldDisjoint c excluded := by
  simp only [Store.toldDisjoint, h.toldSupers, h.objects, h.subjects, ← List.map_append,
    List.any_map, Function.comp_def, List.mem_map_of_injective (Term.rename_injective ρ),
    Term.rename_inj]

/-! ## Containment -/

theorem superClasses (c : Term) :
    s'.superClasses (c.rename ρ) = (s.superClasses c).map (Expression.rename ρ) := by
  rw [Store.superClasses, h.objects, List.map_map, Store.superClasses, List.map_map]
  exact List.map_congr_left fun x _ => h.expression x

theorem equivalentClasses (c : Term) :
    s'.equivalentClasses (c.rename ρ) = (s.equivalentClasses c).map (Expression.rename ρ) := by
  rw [Store.equivalentClasses, h.objects, h.subjects, ← List.map_append, List.map_map,
    Store.equivalentClasses, ← Distinct.dedup_map (Expression.rename_injective ρ), List.map_map]
  exact congrArg Distinct.dedup (List.map_congr_left fun x _ => h.expression x)

section Step

variable {ask ask' : Expression → Expression → Bool}
  (hask : ∀ c d, ask' (c.rename ρ) (d.rename ρ) = ask c d)

include hask

theorem stepByForm (c d : Expression) :
    s'.stepByForm ask' (c.rename ρ) (d.rename ρ) = s.stepByForm ask c d := by
  cases d with
  | top => cases c <;> rfl
  | bottom => cases c <;> rfl
  | concept e =>
    -- a named class contains another one by the told hierarchy or by one of its definitions
    have hdefinitions :
        ((s'.equivalentClasses (e.rename ρ)).filter (·.concept?.isNone)).any
            (ask' (c.rename ρ) ·) =
          ((s.equivalentClasses e).filter (·.concept?.isNone)).any (ask c ·) := by
      rw [h.equivalentClasses, List.filter_map, List.any_map]
      simp only [Function.comp_def, Expression.concept?_rename, Option.isNone_map, hask]
    refine congrArg₂ or ?_ hdefinitions
    cases c with
    | concept b =>
      change decide (e.rename ρ ∈ s'.toldSupers (b.rename ρ)) = decide (e ∈ s.toldSupers b)
      rw [h.toldSupers, decide_eq_decide, List.mem_map_of_injective (Term.rename_injective ρ)]
    | _ => rfl
  | conj parts => cases c <;> rfl
  | disj parts => cases c <;> rfl
  | compl excluded =>
    cases c with
    | compl other => exact hask excluded other
    | concept b =>
      cases excluded with
      | concept e => exact h.toldDisjoint b e
      | _ => rfl
    | _ => rfl
  | someOf p filler =>
    have hnominal : ∀ v, ask' (.nominal (v.rename ρ)) (filler.rename ρ) = ask (.nominal v) filler :=
      fun v => hask (.nominal v) filler
    cases c <;> simp only [Expression.rename, Store.stepByForm, h.isSubProperty, hask, hnominal,
      Expression.isTop_rename]
  | onlyOf p filler =>
    cases c <;> simp only [Expression.rename, Store.stepByForm, h.isSubProperty, hask]
  | atLeast p n =>
    cases n with
    | zero => cases c <;> simp only [Expression.rename, Store.stepByForm]
    | succ n =>
      cases n <;> cases c <;> simp only [Expression.rename, Store.stepByForm, h.isSubProperty]
  | atMost p n => cases c <;> simp only [Expression.rename, Store.stepByForm, h.isSubProperty]
  | exactly p n => cases c <;> simp only [Expression.rename, Store.stepByForm, Term.rename_inj]
  | selfOf p => cases c <;> simp only [Expression.rename, Store.stepByForm, h.isSubProperty]
  | valueOf p v =>
    cases c with
    | someOf q filler =>
      cases filler <;>
        simp only [Expression.rename, Store.stepByForm, h.isSubProperty, Term.rename_inj]
    | _ => simp only [Expression.rename, Store.stepByForm, h.isSubProperty, Term.rename_inj]
  | nominal a => cases c <;> rfl

theorem stepByTold (c d : Expression) :
    s'.stepByTold ask' (c.rename ρ) (d.rename ρ) = s.stepByTold ask c d := by
  cases c with
  | conj parts =>
    rw [Expression.rename_conj, Store.stepByTold, List.any_map, Store.stepByTold]
    simp only [Function.comp_def, hask]
  | concept c =>
    rw [Expression.rename, Store.stepByTold, h.superClasses, h.equivalentClasses, ← List.map_append,
      List.any_map, Store.stepByTold]
    simp only [Function.comp_def, hask]
  | nominal a =>
    rw [Expression.rename, Store.stepByTold, h.types, List.any_map, Store.stepByTold]
    have hconcept : ∀ t : Term, Expression.concept (t.rename ρ) = (Expression.concept t).rename ρ :=
      fun t => rfl
    simp only [Function.comp_def, hconcept, hask]
  | _ => rfl

theorem step (c d : Expression) :
    s'.step ask' (c.rename ρ) (d.rename ρ) = s.step ask c d := by
  have hform := h.stepByForm hask c d
  have htold := h.stepByTold hask c d
  have hall : ∀ parts : List Expression,
      (parts.map (Expression.rename ρ)).all (ask' (c.rename ρ) ·) = parts.all (ask c ·) := by
    intro parts
    rw [List.all_map]
    simp only [Function.comp_def, hask]
  have hany : ∀ branches : List Expression,
      (branches.map (Expression.rename ρ)).any (ask' (c.rename ρ) ·) = branches.any (ask c ·) := by
    intro branches
    rw [List.any_map]
    simp only [Function.comp_def, hask]
  cases c with
  | disj branches =>
    rw [Expression.rename_disj, Store.step, List.all_map, Store.step]
    simp only [Function.comp_def, hask]
  | _ =>
    cases d with
    | conj parts =>
      rw [Expression.rename_conj ρ parts]
      exact hall parts
    | disj branches =>
      rw [Expression.rename_disj ρ branches] at htold ⊢
      exact congrArg₂ or (hany branches) htold
    | _ => exact congrArg₂ or hform htold

end Step

theorem entails (rounds : Nat) (path : List (Expression × Expression)) (c d : Expression) :
    s'.entails rounds (path.map (Prod.map (Expression.rename ρ) (Expression.rename ρ)))
        (c.rename ρ) (d.rename ρ) =
      s.entails rounds path c d := by
  have hanyway : ∀ c d : Expression, holdsAnyway (c.rename ρ) (d.rename ρ) = holdsAnyway c d := by
    intro c d
    simp only [holdsAnyway, Expression.rename_inj, Expression.isTop_rename,
      Expression.rename_eq_bottom]
  induction rounds generalizing path c d with
  | zero => exact hanyway c d
  | succ rounds ih =>
    -- the pairs on the way here are renamed as well, so that a loop is cut off at the same place
    have hpath : (c.rename ρ, d.rename ρ) ∉
        path.map (Prod.map (Expression.rename ρ) (Expression.rename ρ)) ↔ (c, d) ∉ path :=
      not_congr (List.mem_map_of_injective ((Expression.rename_injective ρ).prodMap
        (Expression.rename_injective ρ)) (a := (c, d)))
    rw [Store.entails, Store.entails, hanyway, decide_eq_decide.mpr hpath]
    exact congrArg (fun answer => holdsAnyway c d || (decide ((c, d) ∉ path) && answer))
      (h.step (fun c' d' => ih ((c, d) :: path) c' d') c d)

theorem subsumes (maxDepth : Nat) (c d : Expression) :
    s'.subsumes maxDepth (c.rename ρ) (d.rename ρ) = s.subsumes maxDepth c d :=
  h.entails (maxDepth + 1) [] c d

/-! ## Consistency -/

theorem typedIndividuals :
    s'.typedIndividuals = s.typedIndividuals.map (Term.rename ρ) := by
  rw [Store.typedIndividuals, h, List.filter_map, List.map_map, Store.typedIndividuals,
    ← Distinct.dedup_map (Term.rename_injective ρ), List.map_map]
  simp only [Function.comp_def, Triple.rename, Term.rename_eq_iri]

theorem typeClosure (x : Term) :
    s'.typeClosure (x.rename ρ) = (s.typeClosure x).map (Term.rename ρ) := by
  have hfold : ∀ classes closure : List Term,
      (classes.map (Term.rename ρ)).foldl
          (fun closure c => Distinct.union closure (s'.toldSupers c))
          (closure.map (Term.rename ρ)) =
        (classes.foldl (fun closure c => Distinct.union closure (s.toldSupers c)) closure).map
          (Term.rename ρ) := by
    intro classes
    induction classes with
    | nil => exact fun _ => rfl
    | cons c classes ih =>
      intro closure
      rw [List.map_cons, List.foldl_cons, h.toldSupers,
        Distinct.union_map (Term.rename_injective ρ), ih, List.foldl_cons]
  rw [Store.typeClosure, h.types]
  exact hfold _ []

theorem disjointPair? (classes : List Term) :
    s'.disjointPair? (classes.map (Term.rename ρ)) =
      (s.disjointPair? classes).map (Prod.map (Term.rename ρ) (Term.rename ρ)) := by
  rw [Store.disjointPair?, List.findSome?_map, Store.disjointPair?, List.map_findSome?]
  simp only [Function.comp_def, h.objects, List.find?_map, Option.map_map,
    List.mem_map_of_injective (Term.rename_injective ρ), Prod.map]

/-- A clash of a renamed individual is reported in the same words. -/
theorem clash? (x : Term) (classes : List Term) :
    Option.Rel (Reworded ρ) (s.clash? x classes)
      (s'.clash? (x.rename ρ) (classes.map (Term.rename ρ))) := by
  have hnothing : Term.iri Owl.nothing ∈ classes.map (Term.rename ρ) ↔
      .iri Owl.nothing ∈ classes :=
    List.mem_map_of_injective (Term.rename_injective ρ) (a := .iri Owl.nothing)
  rw [Store.clash?, Store.clash?, h.disjointPair?]
  by_cases hmem : .iri Owl.nothing ∈ classes
  · rw [if_pos hmem, if_pos (hnothing.mpr hmem)]
    exact .some ((Reworded.term x).text _)
  · rw [if_neg hmem, if_neg (mt hnothing.mp hmem)]
    cases s.disjointPair? classes with
    | none => exact .none
    | some pair =>
      exact .some (((((Reworded.term x).text _).append (.term pair.1)).text _).append
        (.term pair.2))

end Store.Renamed

/-! ## Questions -/

namespace Knowledge

/-- The second error is the first about renamed terms. -/
inductive QueryError.Renamed (f : BlankNode → BlankNode) : QueryError → QueryError → Prop
  | unknownIndividual (x : Term) :
    QueryError.Renamed f (.unknownIndividual x) (.unknownIndividual (x.rename f))
  | inconsistent {reason reason' : String} (h : Reworded f reason reason') :
    QueryError.Renamed f (.inconsistent reason) (.inconsistent reason')

theorem QueryError.Renamed.message {f : BlankNode → BlankNode} {e e' : QueryError}
    (h : QueryError.Renamed f e e') : Reworded f e.message e'.message := by
  cases h with
  | unknownIndividual x => exact (Reworded.same _).append (.term x)
  | inconsistent h => exact (Reworded.same _).append h

end Knowledge

theorem Store.Renamed.checkConsistency {s s' : Store} (h : s.Renamed ρ s') :
    EndAlike (QueryError.Renamed ρ) (fun _ _ => True) s.checkConsistency s'.checkConsistency := by
  have hclash : Option.Rel (Reworded ρ)
      (s.typedIndividuals.findSome? fun x => s.clash? x (s.typeClosure x))
      (s'.typedIndividuals.findSome? fun x => s'.clash? x (s'.typeClosure x)) := by
    rw [h.typedIndividuals]
    -- individuals are looked through in the same order, up to the first that clashes
    induction s.typedIndividuals with
    | nil => exact .none
    | cons x rest ih =>
      have := h.clash? x (s.typeClosure x)
      rw [← h.typeClosure] at this
      rw [List.map_cons, List.findSome?_cons, List.findSome?_cons]
      generalize s.clash? x (s.typeClosure x) = reason at this ⊢
      generalize s'.clash? (x.rename ρ) (s'.typeClosure (x.rename ρ)) = reason' at this ⊢
      cases this with
      | none => exact ih
      | some hreason => exact .some hreason
  rw [Store.checkConsistency, Store.checkConsistency]
  generalize s.typedIndividuals.findSome? _ = reason at hclash ⊢
  generalize s'.typedIndividuals.findSome? _ = reason' at hclash ⊢
  cases hclash with
  | none => exact .ok trivial
  | some hreason => exact .error (.inconsistent hreason)

namespace Knowledge

/-- The second knowledge is the first over a renamed store. -/
structure Renamed (f : BlankNode → BlankNode) (k k' : Knowledge) : Prop where
  store : k.store.Renamed f k'.store
  maxDepth : k'.maxDepth = k.maxDepth

/-- The answers to a question about renamed terms: the renamed value, or the renamed refusal. -/
abbrev AnswersAlike (f : BlankNode → BlankNode) {α : Type} (A : α → α → Prop) :
    Except QueryError α → Except QueryError α → Prop :=
  EndAlike (QueryError.Renamed f) A

/-- The second profile is the renamed first, and so are the edges followed for it. -/
def DescribedAlike (f : BlankNode → BlankNode) (d d' : Expression × List Triple) : Prop :=
  d'.1 = d.1.rename f ∧ d'.2 = d.2.map (Triple.rename f)

theorem typeParts_rename (x : Term) (types : List Term) :
    typeParts (x.rename ρ) (types.map (Term.rename ρ)) =
      (typeParts x types).map (Expression.rename ρ) := by
  have htype : ∀ t : Term,
      (t.rename ρ).typeExpression? = t.typeExpression?.map (Expression.rename ρ) := by
    intro t
    cases t with
    | iri i =>
      rw [Term.rename_iri, Term.typeExpression?]
      split
      · rfl
      · rw [Option.map_some, Expression.rename_named]
    | literal l => rfl
    | blank b => rfl
  rw [typeParts, List.filter_map, List.filterMap_map, typeParts, List.map_filterMap]
  simp only [Function.comp_def, htype, ne_eq, Term.rename_inj]

theorem identityPart_rename (wanted : Bool) (x : Term) :
    identityPart wanted (x.rename ρ) = (identityPart wanted x).map (Expression.rename ρ) := by
  rw [identityPart, identityPart, Term.isAnonymous_rename]
  split <;> rfl

/-- The parts of renamed edges, when what is said of their ends is renamed. -/
theorem edgeParts_rename {describe describe' : Term → List Triple → Described}
    (hdescribe : ∀ y followed, AnswersAlike ρ (DescribedAlike ρ) (describe y followed)
      (describe' (y.rename ρ) (followed.map (Triple.rename ρ))))
    (x : Term) (edges : List Edge) (followed : List Triple) :
    AnswersAlike ρ
      (fun d d' => d'.1 = d.1.map (Expression.rename ρ) ∧ d'.2 = d.2.map (Triple.rename ρ))
      (edgeParts describe x edges followed)
      (edgeParts describe' (x.rename ρ) (edges.map (Edge.rename ρ))
        (followed.map (Triple.rename ρ))) := by
  induction edges generalizing followed with
  | nil => exact .ok ⟨rfl, rfl⟩
  | cons edge rest ih =>
    obtain ⟨property, value⟩ := edge
    have hfollowed : (⟨x.rename ρ, property.rename ρ, value.rename ρ⟩ : Triple) ∈
        followed.map (Triple.rename ρ) ↔ ⟨x, property, value⟩ ∈ followed :=
      List.mem_map_of_injective (Triple.rename_injective ρ) (a := ⟨x, property, value⟩)
    rw [List.map_cons, Edge.rename, edgeParts, edgeParts, Term.isReserved_rename]
    by_cases hreserved : property.isReserved = true
    · rw [if_pos hreserved, if_pos hreserved]
      exact ih followed
    · rw [if_neg hreserved, if_neg hreserved]
      -- an edge is followed once; the memory of what was followed is renamed along
      by_cases hmet : ⟨x, property, value⟩ ∈ followed
      · rw [if_pos hmet, if_pos (hfollowed.mpr hmet)]
        refine (ih followed).bind ?_
        rintro ⟨parts, after⟩ ⟨parts', after'⟩ ⟨rfl, rfl⟩
        exact .ok ⟨rfl, rfl⟩
      · rw [if_neg hmet, if_neg (mt hfollowed.mp hmet)]
        have hvalue := hdescribe value (followed ++ [⟨x, property, value⟩])
        rw [List.map_append] at hvalue
        refine hvalue.bind ?_
        rintro ⟨filler, after⟩ ⟨filler', after'⟩ ⟨rfl, rfl⟩
        refine (ih after).bind ?_
        rintro ⟨parts, last⟩ ⟨parts', last'⟩ ⟨rfl, rfl⟩
        exact .ok ⟨rfl, rfl⟩

namespace Renamed

variable {k k' : Knowledge} (h : k.Renamed ρ k')

include h

theorem subsumes (c d : Expression) :
    k'.subsumes (c.rename ρ) (d.rename ρ) = k.subsumes c d := by
  rw [Knowledge.subsumes, h.maxDepth]
  exact h.store.subsumes k.maxDepth c d

theorem ifMentioned {α : Type} {A : α → α → Prop} (x : Term) {answer answer' : α}
    (ha : A answer answer') :
    AnswersAlike ρ A (k.ifMentioned x answer) (k'.ifMentioned (x.rename ρ) answer') := by
  rw [Knowledge.ifMentioned, Knowledge.ifMentioned, h.store.mentions]
  split
  · exact .ok ha
  · exact .error (.unknownIndividual x)

theorem types (x : Term) :
    AnswersAlike ρ (fun ts ts' => ts' = ts.map (Term.rename ρ)) (k.types x)
      (k'.types (x.rename ρ)) :=
  h.ifMentioned x (h.store.types x)

theorem edges (x : Term) :
    AnswersAlike ρ (fun es es' => es' = es.map (Edge.rename ρ)) (k.edges x)
      (k'.edges (x.rename ρ)) :=
  h.ifMentioned x (h.store.outgoing x)

theorem typeProfile (x : Term) :
    AnswersAlike ρ (fun e e' => e' = e.rename ρ) (k.typeProfile x)
      (k'.typeProfile (x.rename ρ)) := by
  refine (h.types x).bind ?_
  rintro types types' rfl
  rw [typeParts_rename, Expression.meet_rename]
  exact .ok rfl

/-! ## Profiles and acceptance -/

theorem describe (nested : Bool) (depth : Nat) (identity : Bool) (x : Term)
    (followed : List Triple) :
    AnswersAlike ρ (DescribedAlike ρ) (k.describe nested depth identity x followed)
      (k'.describe nested depth identity (x.rename ρ) (followed.map (Triple.rename ρ))) := by
  induction depth generalizing identity x followed with
  | zero => cases x <;> exact .ok ⟨rfl, rfl⟩
  | succ depth ih =>
    by_cases hx : x.isIndividual = true
    · rw [describe_succ hx, describe_succ (by rwa [Term.isIndividual_rename])]
      refine (h.types x).bind ?_
      rintro types types' rfl
      refine (h.edges x).bind ?_
      rintro edges edges' rfl
      refine (edgeParts_rename (ih nested) x edges followed).bind ?_
      rintro ⟨parts, last⟩ ⟨parts', last'⟩ ⟨rfl, rfl⟩
      refine .ok ⟨?_, rfl⟩
      rw [identityPart_rename, typeParts_rename, ← List.map_append, ← List.map_append,
        Expression.meet_rename]
    · obtain ⟨l, rfl⟩ := Term.exists_literal (by simpa using hx)
      exact .ok ⟨rfl, rfl⟩

theorem profile (x : Term) (identity nested : Bool) :
    AnswersAlike ρ (fun e e' => e' = e.rename ρ) (k.profile x identity nested)
      (k'.profile (x.rename ρ) identity nested) := by
  -- the walk may be as deep as the store is large, which renaming does not change
  rw [Knowledge.profile, Knowledge.profile, h.store.size_eq]
  refine (h.describe nested (k.store.size + 1) identity x []).bind ?_
  rintro ⟨e, followed⟩ ⟨e', followed'⟩ ⟨he, -⟩
  exact .ok he

theorem related (kind : MappingKind) (c d : Expression) :
    k'.related kind (c.rename ρ) (d.rename ρ) = k.related kind c d := by
  cases kind with
  | sub => exact h.subsumes c d
  | subIfNotTop =>
    simp only [Knowledge.related, h.subsumes, Expression.rename_eq_top]
  | super => exact h.subsumes d c
  | equivalent => exact congrArg₂ and (h.subsumes c d) (h.subsumes d c)
  | any => rfl

theorem accepts (kind : MappingKind) (x t : Term) :
    k'.accepts kind (x.rename ρ) (t.rename ρ) = k.accepts kind x t := by
  have hx := h.profile x (kind != .super) false
  have ht := h.profile t false false
  rw [Knowledge.accepts, Knowledge.accepts]
  split
  · rfl
  · generalize k.profile x _ _ = c at hx ⊢
    generalize k'.profile (x.rename ρ) _ _ = c' at hx ⊢
    generalize k.profile t _ _ = d at ht ⊢
    generalize k'.profile (t.rename ρ) _ _ = d' at ht ⊢
    cases hx with
    | error _ => rfl
    | ok hc =>
      cases ht with
      | error _ => rfl
      | ok hd => rw [hc, hd]; exact h.related kind _ _

end Renamed

end Knowledge

/-! ## Reasoners -/

/-- The second reasoner answers questions about renamed terms with the renamed answers of the
first. -/
structure Reasoner.Renamed (f : BlankNode → BlankNode) (r r' : Reasoner) : Prop where
  subsumes : ∀ c d, r'.subsumes (c.rename f) (d.rename f) = r.subsumes c d
  superClasses : ∀ c,
    r'.superClasses (c.rename f) = (r.superClasses c).map (Expression.rename f)
  equivalentClasses : ∀ c,
    r'.equivalentClasses (c.rename f) = (r.equivalentClasses c).map (Expression.rename f)
  types : ∀ x, AnswersAlike f (fun ts ts' => ts' = ts.map (Term.rename f)) (r.types x)
    (r'.types (x.rename f))
  edges : ∀ x, AnswersAlike f (fun es es' => es' = es.map (Edge.rename f)) (r.edges x)
    (r'.edges (x.rename f))
  definedPairs : r'.definedPairs = r.definedPairs

theorem Knowledge.Renamed.reasoner {k k' : Knowledge} (h : k.Renamed ρ k') :
    k.reasoner.Renamed ρ k'.reasoner where
  subsumes := h.subsumes
  superClasses := h.store.superClasses
  equivalentClasses := h.store.equivalentClasses
  types := h.types
  edges := h.edges
  definedPairs := by
    change (2 * k'.store.size) * (k'.store.size + 1) = (2 * k.store.size) * (k.store.size + 1)
    rw [h.store.size_eq]

end GraphConformance
