import GraphConformance.Mapping.Kind
import GraphConformance.Proofs.Knowledge.Questions
import GraphConformance.Proofs.Knowledge.Soundness

/-!
# Profiles describe their individuals

In an interpretation in which what the store asserts holds (`Interpretation.Satisfies`), every
individual belongs to its own profile, whatever edges were followed before and wherever a cycle is
cut (`element_mem_meaning_of_describe`). As subsumption is sound, an individual that is accepted for
another one belongs to the profile of the other one (`element_mem_meaning_of_accepts`).
-/

set_option autoImplicit false

namespace GraphConformance

open Vocabulary

universe u

variable {Δ : Type u} {I : Interpretation Δ} {k : Knowledge} {s : Store}

namespace Interpretation

/-- A term that is a literal belongs to its datatype. -/
def TypesLiteral (I : Interpretation Δ) (x : Term) : Prop :=
  ∀ l, x = .literal l → I.element x ∈ I.extension (.iri l.effectiveDatatype)

/-- The interpretation models the store, the edges of content hold, and each literal of the store
belongs to its datatype. Of all literals this cannot be asked: the datatype may be empty. -/
structure Satisfies (I : Interpretation Δ) (s : Store) : Prop extends I.Models s where
  edge : ∀ x p y, ⟨x, p, y⟩ ∈ s.triples → p.isReserved = false →
    I.element y ∈ I.successors p (I.element x)
  literal : ∀ x, s.mentions x = true → I.TypesLiteral x

end Interpretation

theorem Expression.mem_meaning_meet {parts : List Expression} {x : Δ} :
    x ∈ (meet parts).meaning I ↔ ∀ e ∈ parts, x ∈ e.meaning I := by
  -- the parts that are dropped hold of everything, or are there once more
  have hkept : (∀ e ∈ Distinct.dedup (parts.filter (!·.isTop)), x ∈ e.meaning I) ↔
      ∀ e ∈ parts, x ∈ e.meaning I := by
    constructor
    · intro h e he
      by_cases htop : e.isTop = true
      · rw [meaning_of_isTop htop]
        exact Set.mem_univ x
      · exact h e (Distinct.mem_dedup.mpr (List.mem_filter.mpr ⟨he, by simpa using htop⟩))
    · intro h e he
      exact h e (List.mem_of_mem_filter (Distinct.mem_dedup.mp he))
  rw [← hkept, meet]
  split
  · rename_i heq
    simp [heq, meaning]
  · rename_i part heq
    simp [heq]
  · rw [mem_meaning_conj]

namespace Knowledge

/-! ## The parts of a profile -/

theorem element_mem_of_mem_typeParts (hI : I.Satisfies k.store) {x : Term} {e : Expression}
    (he : e ∈ typeParts x (k.store.types x)) : I.element x ∈ e.meaning I := by
  obtain ⟨t, ht, hte⟩ := List.mem_filterMap.mp he
  have hmem := hI.type x t (Store.mem_types.mp (List.mem_of_mem_filter ht))
  cases t with
  | iri i =>
    rw [Term.typeExpression?] at hte
    split at hte
    · exact absurd hte (by simp)
    · rw [← Option.some.inj hte, ← hI.extension_iri]
      exact hmem
  | literal l => exact absurd hte (by simp [Term.typeExpression?])
  | blank b =>
    rw [← Option.some.inj hte, Expression.meaning]
    exact hmem

theorem element_mem_of_mem_identityPart {wanted : Bool} {x : Term} {e : Expression}
    (he : e ∈ identityPart wanted x) : I.element x ∈ e.meaning I := by
  rw [identityPart] at he
  split at he
  · rw [List.mem_singleton.mp he, Expression.meaning]
    exact Set.mem_singleton _
  · exact absurd he (by simp)

/-- The parts of edges that hold, when what is said of their ends holds. -/
theorem element_mem_of_edgeParts {describe : Term → List Triple → Described} {x : Term}
    {edges : List Edge} (hdescribe : ∀ p y, (p, y) ∈ edges →
      ∀ {followed e after}, describe y followed = .ok (e, after) → I.element y ∈ e.meaning I)
    (hedges : ∀ p y, (p, y) ∈ edges → p.isReserved = false →
      I.element y ∈ I.successors p (I.element x))
    {followed after : List Triple} {parts : List Expression}
    (h : edgeParts describe x edges followed = .ok (parts, after)) :
    ∀ e ∈ parts, I.element x ∈ e.meaning I := by
  induction edges generalizing followed after parts with
  | nil =>
    obtain ⟨rfl, -⟩ := Prod.mk.inj (Except.ok.inj h)
    simp
  | cons edge rest ih =>
    obtain ⟨property, value⟩ := edge
    have hrest : ∀ {followed after parts}, edgeParts describe x rest followed = .ok (parts, after) →
        ∀ e ∈ parts, I.element x ∈ e.meaning I :=
      ih (fun p y hmem => hdescribe p y (List.mem_cons_of_mem _ hmem))
        (fun p y hmem => hedges p y (List.mem_cons_of_mem _ hmem))
    rw [edgeParts] at h
    split at h
    · exact hrest h
    · rename_i hreserved
      -- the edge leads to its end, and the rest of the edges adds the other parts
      have hedge := hedges property value List.mem_cons_self (by simpa using hreserved)
      split at h
      · obtain ⟨⟨others, reached⟩, hothers, h⟩ := bind_eq_ok_iff.mp h
        obtain ⟨rfl, -⟩ := Prod.mk.inj (Except.ok.inj h)
        intro e he
        rcases List.mem_cons.mp he with rfl | he
        · exact ⟨I.element value, hedge, Set.mem_univ _⟩
        · exact hrest hothers e he
      · obtain ⟨⟨filler, inside⟩, hfiller, h⟩ := bind_eq_ok_iff.mp h
        obtain ⟨⟨others, reached⟩, hothers, h⟩ := bind_eq_ok_iff.mp h
        obtain ⟨rfl, -⟩ := Prod.mk.inj (Except.ok.inj h)
        intro e he
        rcases List.mem_cons.mp he with rfl | he
        · exact ⟨I.element value, hedge, hdescribe property value List.mem_cons_self hfiller⟩
        · exact hrest hothers e he

/-- The parts of edges whose ends have a profile. -/
theorem exists_edgeParts {describe : Term → List Triple → Described} {x : Term} {edges : List Edge}
    (hdescribe : ∀ p y, (p, y) ∈ edges → ∀ followed, ∃ found, describe y followed = .ok found)
    (followed : List Triple) : ∃ found, edgeParts describe x edges followed = .ok found := by
  induction edges generalizing followed with
  | nil => exact ⟨_, rfl⟩
  | cons edge rest ih =>
    obtain ⟨property, value⟩ := edge
    have hrest := ih fun p y hmem => hdescribe p y (List.mem_cons_of_mem _ hmem)
    rw [edgeParts]
    split
    · exact hrest followed
    · split
      · obtain ⟨⟨others, reached⟩, hothers⟩ := hrest followed
        exact ⟨_, bind_eq_ok_iff.mpr ⟨_, hothers, rfl⟩⟩
      · obtain ⟨⟨filler, inside⟩, hfiller⟩ := hdescribe property value List.mem_cons_self
          (followed ++ [⟨x, property, value⟩])
        obtain ⟨⟨others, reached⟩, hothers⟩ := hrest inside
        exact ⟨_, bind_eq_ok_iff.mpr ⟨_, hfiller, bind_eq_ok_iff.mpr ⟨_, hothers, rfl⟩⟩⟩

/-! ## Profiles -/

theorem describe_succ {nested : Bool} {depth : Nat} {identity : Bool} {x : Term}
    (hx : x.isIndividual = true) (followed : List Triple) :
    k.describe nested (depth + 1) identity x followed = do
      let types ← k.types x
      let edges ← k.edges x
      let (parts, followed) ← edgeParts (k.describe nested depth nested) x edges followed
      return (.meet (identityPart identity x ++ typeParts x types ++ parts), followed) := by
  cases x with
  | literal l => exact absurd hx (by simp [Term.isIndividual])
  | iri i => rfl
  | blank b => rfl

/-- What the store mentions has a profile. -/
theorem exists_describe {nested : Bool} (depth : Nat) (identity : Bool) {x : Term}
    (hx : k.Knows x) (followed : List Triple) :
    ∃ found, k.describe nested depth identity x followed = .ok found := by
  induction depth generalizing identity x followed with
  | zero => cases x <;> exact ⟨_, rfl⟩
  | succ depth ih =>
    by_cases hindividual : x.isIndividual = true
    · have hmentioned := hx.mentioned hindividual
      have hends : ∀ p y, (p, y) ∈ k.store.outgoing x → ∀ followed,
          ∃ found, k.describe nested depth nested y followed = .ok found :=
        fun p y hy followed => ih nested (Knows.of_object (Store.mem_outgoing.mp hy)) followed
      obtain ⟨⟨parts, reached⟩, hparts⟩ :=
        exists_edgeParts (x := x) hends followed
      rw [describe_succ hindividual]
      exact ⟨_, bind_eq_ok_iff.mpr ⟨_, ifMentioned_eq_ok_iff.mpr ⟨hmentioned, rfl⟩,
        bind_eq_ok_iff.mpr ⟨_, ifMentioned_eq_ok_iff.mpr ⟨hmentioned, rfl⟩,
          bind_eq_ok_iff.mpr ⟨_, hparts, rfl⟩⟩⟩⟩
    · obtain ⟨l, rfl⟩ := Term.exists_literal (by simpa using hindividual)
      exact ⟨_, rfl⟩

/-- Every individual belongs to its own profile, whatever edges have been followed, and at every
depth. -/
theorem element_mem_meaning_of_describe (hI : I.Satisfies k.store) {nested : Bool} (depth : Nat)
    (identity : Bool) {x : Term} (hx : I.TypesLiteral x) {followed after : List Triple}
    {e : Expression} (h : k.describe nested depth identity x followed = .ok (e, after)) :
    I.element x ∈ e.meaning I := by
  induction depth generalizing identity x followed after e with
  | zero =>
    cases x with
    | literal l =>
      obtain ⟨rfl, -⟩ := Prod.mk.inj (Except.ok.inj h)
      exact hx l rfl
    | iri i =>
      obtain ⟨rfl, -⟩ := Prod.mk.inj (Except.ok.inj h)
      exact Set.mem_univ _
    | blank b =>
      obtain ⟨rfl, -⟩ := Prod.mk.inj (Except.ok.inj h)
      exact Set.mem_univ _
  | succ depth ih =>
    by_cases hindividual : x.isIndividual = true
    · rw [describe_succ hindividual] at h
      obtain ⟨types, htypes, h⟩ := bind_eq_ok_iff.mp h
      obtain ⟨edges, hedges, h⟩ := bind_eq_ok_iff.mp h
      obtain ⟨⟨parts, reached⟩, hparts, h⟩ := bind_eq_ok_iff.mp h
      obtain ⟨rfl, -⟩ := Prod.mk.inj (Except.ok.inj h)
      obtain ⟨-, rfl⟩ := ifMentioned_eq_ok_iff.mp htypes
      obtain ⟨-, rfl⟩ := ifMentioned_eq_ok_iff.mp hedges
      refine Expression.mem_meaning_meet.mpr fun e he => ?_
      rcases List.mem_append.mp he with he | he
      · rcases List.mem_append.mp he with he | he
        · exact element_mem_of_mem_identityPart he
        · exact element_mem_of_mem_typeParts hI he
      · refine element_mem_of_edgeParts (fun p y hy => ?_) (fun p y hy => ?_) hparts e he
        · have hmentioned : k.store.mentions y = true :=
            Store.mentions_iff.mpr ⟨_, Store.mem_outgoing.mp hy, Or.inr (Or.inr rfl)⟩
          intro followed e after
          exact ih nested (hI.literal y hmentioned)
        · exact hI.edge x p y (Store.mem_outgoing.mp hy)
    · obtain ⟨l, rfl⟩ := Term.exists_literal (by simpa using hindividual)
      obtain ⟨rfl, -⟩ := Prod.mk.inj (Except.ok.inj h)
      exact hx l rfl

theorem profile_eq_ok_iff {x : Term} {identity nested : Bool} {e : Expression} :
    k.profile x identity nested = .ok e ↔
      ∃ followed, k.describe nested (k.store.size + 1) identity x [] = .ok (e, followed) := by
  rw [profile, bind_eq_ok_iff]
  constructor
  · rintro ⟨⟨found, followed⟩, hfound, h⟩
    rw [← Except.ok.inj h]
    exact ⟨followed, hfound⟩
  · rintro ⟨followed, hfound⟩
    exact ⟨_, hfound, rfl⟩

theorem exists_profiles_of_accepts {x y : Term} (h : k.accepts .sub x y = true) :
    ∃ p e, k.profile x true false = .ok p ∧ k.profile y false false = .ok e ∧
      k.subsumes p e = true := by
  rw [accepts, if_neg (by decide)] at h
  split at h
  · rename_i p e hp he
    exact ⟨p, e, hp, he, h⟩
  · exact absurd h (by simp)

end Knowledge

/-- In an interpretation that satisfies the store, an individual that is accepted as a special case
of another one belongs to the profile of the other one, and every literal and every term that the
store mentions has a profile of each sort and belongs to it. -/
theorem element_mem_meaning_of_accepts {Δ : Type u} (k : Knowledge) (I : Interpretation Δ)
    (hI : I.Satisfies k.store) (x : Term) (hx : I.TypesLiteral x) :
    (∀ y, k.accepts .sub x y = true →
      ∃ e, k.profile y false false = .ok e ∧ I.element x ∈ e.meaning I) ∧
    (k.Knows x → ∀ identity nested,
      ∃ e, k.profile x identity nested = .ok e ∧ I.element x ∈ e.meaning I) := by
  have hown : ∀ {identity nested e}, k.profile x identity nested = .ok e →
      I.element x ∈ e.meaning I := by
    intro identity nested e h
    obtain ⟨followed, h⟩ := Knowledge.profile_eq_ok_iff.mp h
    exact Knowledge.element_mem_meaning_of_describe hI _ _ hx h
  constructor
  · intro y h
    obtain ⟨p, e, hp, he, hsub⟩ := Knowledge.exists_profiles_of_accepts h
    exact ⟨e, he, meaning_subset_of_subsumes k I hI.toModels p e hsub (hown hp)⟩
  · intro hknown identity nested
    obtain ⟨⟨e, followed⟩, hfound⟩ :=
      Knowledge.exists_describe (k.store.size + 1) identity hknown []
    have he := Knowledge.profile_eq_ok_iff.mpr ⟨followed, hfound⟩
    exact ⟨e, he, hown he⟩

/-! ### Loops

The instance i is an A, the template t a B, and each has itself under p. Every A is a B. The second
time that a loop is met, it only says that there is a value. The instance also has a literal. -/

namespace Loops

def triples : List Triple :=
  [⟨.iri ⟨"i"⟩, .iri Rdf.type, .iri ⟨"A"⟩⟩, ⟨.iri ⟨"i"⟩, .iri ⟨"p"⟩, .iri ⟨"i"⟩⟩,
    ⟨.iri ⟨"i"⟩, .iri ⟨"q"⟩, .literal ⟨"v", .plain⟩⟩,
    ⟨.iri ⟨"A"⟩, .iri Rdfs.subClassOf, .iri ⟨"B"⟩⟩,
    ⟨.iri ⟨"t"⟩, .iri Rdf.type, .iri ⟨"B"⟩⟩, ⟨.iri ⟨"t"⟩, .iri ⟨"p"⟩, .iri ⟨"t"⟩⟩]

def knowledge : Knowledge := ⟨.ofList triples, 8⟩

theorem store_triples : knowledge.store.triples = triples := by
  rw [knowledge, Store.ofList, Store.triples_insertAll]
  decide

/-- The parts of a class whose members have something under p. -/
def linked (name : String) (filler : Expression) : List Expression :=
  [.concept (.iri ⟨name⟩), .someOf (.iri ⟨"p"⟩) filler]

def described : Expression :=
  .conj (.nominal (.iri ⟨"i"⟩) ::
    linked "A" (.conj (linked "A" .top ++ [.someOf (.iri ⟨"q"⟩) (.concept (.iri Xsd.string))])) ++
      [.someOf (.iri ⟨"q"⟩) .top])

def required : Expression := .conj (linked "B" (.conj (linked "B" .top)))

theorem profile_instance : knowledge.profile (.iri ⟨"i"⟩) true false = .ok described := rfl

theorem profile_template : knowledge.profile (.iri ⟨"t"⟩) false false = .ok required := rfl

theorem entails_classes {rounds : Nat} {path : List (Expression × Expression)}
    (hpath : (.concept (.iri ⟨"A"⟩), .concept (.iri ⟨"B"⟩)) ∉ path) :
    knowledge.store.entails (rounds + 1) path (.concept (.iri ⟨"A"⟩)) (.concept (.iri ⟨"B"⟩)) =
      true := by
  have htold : .iri ⟨"B"⟩ ∈ knowledge.store.toldSupers (.iri ⟨"A"⟩) :=
    Store.mem_toldSupers_of_mem_nextSupers (Store.self_mem_toldSupers _ _) (by decide)
  exact Store.entails_of_mem_toldSupers hpath htold

theorem subsumes_required : knowledge.subsumes described required = true := by
  rw [Knowledge.subsumes, Store.subsumes, show knowledge.maxDepth = 8 from rfl]
  apply Store.entails_of_step (by simp)
  simp only [Store.step, described, required, linked, List.cons_append, List.nil_append,
    List.all_cons, List.all_nil, Bool.and_eq_true]
  refine ⟨?_, ?_, trivial⟩
  -- the class of the loop
  · apply Store.entails_of_step (by simp)
    simp only [Store.step, Store.stepByTold, Bool.or_eq_true, List.any_cons]
    exact Or.inr (Or.inr (Or.inl (entails_classes (by simp))))
  -- the loop, followed once
  · apply Store.entails_of_step (by simp)
    simp only [Store.step, Store.stepByTold, Bool.or_eq_true, List.any_cons]
    refine Or.inr (Or.inr (Or.inr (Or.inl ?_)))
    apply Store.entails_of_step (by simp)
    simp only [Store.step, Store.stepByForm, Bool.or_eq_true, Bool.and_eq_true]
    refine Or.inl ⟨by simp [Store.isSubProperty], ?_⟩
    apply Store.entails_of_step (by simp)
    simp only [Store.step, List.all_cons, List.all_nil, Bool.and_eq_true]
    refine ⟨?_, ?_, trivial⟩
    · apply Store.entails_of_step (by simp)
      simp only [Store.step, Store.stepByTold, Bool.or_eq_true, List.any_cons]
      exact Or.inr (Or.inl (entails_classes (by simp)))
    · apply Store.entails_of_step (by simp)
      simp only [Store.step, Store.stepByTold, Bool.or_eq_true, List.any_cons]
      exact Or.inr (Or.inr (Or.inl rfl))

theorem accepts_loop : knowledge.accepts .sub (.iri ⟨"i"⟩) (.iri ⟨"t"⟩) = true := by
  rw [Knowledge.accepts, if_neg (by decide)]
  simp only [show (MappingKind.sub != .super) = true from rfl, profile_instance, profile_template]
  exact subsumes_required

/-- The two individuals are one element, the only A and the only B. Each element has itself under
every property, and under q the other one too. -/
def model : Interpretation Bool where
  extension t :=
    if t = .iri ⟨"A"⟩ ∨ t = .iri ⟨"B"⟩ then {true}
    else if t = .iri Owl.nothing then ∅
    else Set.univ
  relation p x y := p = .iri ⟨"q"⟩ ∨ x = y
  element t := decide (t = .iri ⟨"i"⟩ ∨ t = .iri ⟨"t"⟩)

theorem told_cases {subject property object : Term}
    (h : ⟨subject, property, object⟩ ∈ knowledge.store.triples) :
    (property = .iri Rdf.type ∧ model.element subject = true ∧ model.extension object = {true}) ∨
      (property = .iri Rdfs.subClassOf ∧ subject = .iri ⟨"A"⟩ ∧ object = .iri ⟨"B"⟩) ∨
        (property = .iri ⟨"p"⟩ ∧ subject = object) ∨ property = .iri ⟨"q"⟩ := by
  rw [store_triples] at h
  simp only [triples, List.mem_cons, List.not_mem_nil, or_false, Triple.mk.injEq] at h
  rcases h with ⟨rfl, rfl, rfl⟩ | ⟨rfl, rfl, rfl⟩ | ⟨-, rfl, -⟩ | ⟨rfl, rfl, rfl⟩ |
    ⟨rfl, rfl, rfl⟩ | ⟨rfl, rfl, rfl⟩
  · exact Or.inl ⟨rfl, by simp [model], by simp [model]⟩
  · exact Or.inr (Or.inr (Or.inl ⟨rfl, rfl⟩))
  · exact Or.inr (Or.inr (Or.inr rfl))
  · exact Or.inr (Or.inl ⟨rfl, rfl, rfl⟩)
  · exact Or.inl ⟨rfl, by simp [model], by simp [model]⟩
  · exact Or.inr (Or.inr (Or.inl ⟨rfl, rfl⟩))

theorem property_mem {subject object : Term} {property : Iri}
    (h : ⟨subject, .iri property, object⟩ ∈ knowledge.store.triples) :
    property ∈ [Rdf.type, Rdfs.subClassOf, ⟨"p"⟩, ⟨"q"⟩] := by
  rcases told_cases h with ⟨hp, -⟩ | ⟨hp, -⟩ | ⟨hp, -⟩ | hp
  · simp [Term.iri.inj hp]
  · simp [Term.iri.inj hp]
  · simp [Term.iri.inj hp]
  · simp [Term.iri.inj hp]

theorem expression_eq : knowledge.store.expression = Evidence.typeExpression := by
  apply Store.expression_eq_typeExpression
  rw [store_triples]
  simp [triples]

theorem satisfies_model : model.Satisfies knowledge.store where
  reading := by
    intro node
    rw [expression_eq]
    cases node with
    | iri i =>
      rw [Evidence.typeExpression, Expression.named]
      split
      · rename_i hi
        subst hi
        simp [model, Owl.thing, Owl.nothing, Expression.meaning]
      · split
        · rename_i hi
          subst hi
          simp [model, Owl.nothing, Expression.meaning]
        · rw [Expression.meaning]
    | literal l => rfl
    | blank b => rfl
  subClassOf := by
    intro c d h
    rcases told_cases h with ⟨h, -⟩ | ⟨-, rfl, rfl⟩ | ⟨h, -⟩ | h
    · exact absurd h (by decide)
    · simp [model]
    · exact absurd h (by decide)
    · exact absurd h (by decide)
  equivalentClass := fun _ _ h => absurd (property_mem h) (by decide)
  disjointWith := fun _ _ h => absurd (property_mem h) (by decide)
  subPropertyOf := fun _ _ h => absurd (property_mem h) (by decide)
  equivalentProperty := fun _ _ h => absurd (property_mem h) (by decide)
  type := by
    intro a c h
    rcases told_cases h with ⟨-, ha, hc⟩ | ⟨h, -⟩ | ⟨h, -⟩ | h
    · rw [ha, hc]
      exact Set.mem_singleton _
    · exact absurd h (by decide)
    · exact absurd h (by decide)
    · exact absurd h (by decide)
  edge := by
    intro x p y h hp
    rcases told_cases h with ⟨rfl, -⟩ | ⟨-, rfl, rfl⟩ | ⟨-, rfl⟩ | rfl
    · exact absurd hp (by decide)
    · simp [model]
    · simp [model]
    · simp [model]
  literal := by
    rintro x hx l rfl
    obtain ⟨t, ht, hl⟩ := Store.mentions_iff.mp hx
    have hstring : l = ⟨"v", .plain⟩ := by
      rw [store_triples] at ht
      simp only [triples, List.mem_cons, List.not_mem_nil, or_false] at ht
      rcases ht with rfl | rfl | rfl | rfl | rfl | rfl <;> simp at hl
      exact hl.symm
    subst hstring
    simp [model, Literal.effectiveDatatype, Xsd.string, Owl.nothing]

/-- In the model, the instance belongs to its own profile and to that of the template. -/
theorem element_mem_required :
    model.Satisfies knowledge.store ∧ knowledge.accepts .sub (.iri ⟨"i"⟩) (.iri ⟨"t"⟩) = true ∧
      model.element (.iri ⟨"i"⟩) ∈ required.meaning model ∧
      model.element (.iri ⟨"i"⟩) ∈ described.meaning model := by
  have hliteral : model.TypesLiteral (.iri ⟨"i"⟩) := fun l h => absurd h (by simp)
  have hknown : knowledge.Knows (.iri ⟨"i"⟩) := Or.inr (by decide)
  obtain ⟨htemplate, hown⟩ :=
    element_mem_meaning_of_accepts knowledge model satisfies_model (.iri ⟨"i"⟩) hliteral
  obtain ⟨e, he, hmem⟩ := htemplate (.iri ⟨"t"⟩) accepts_loop
  obtain rfl : required = e := Except.ok.inj (profile_template.symm.trans he)
  obtain ⟨d, hd, hmemd⟩ := hown hknown true false
  obtain rfl : described = d := Except.ok.inj (profile_instance.symm.trans hd)
  exact ⟨satisfies_model, accepts_loop, hmem, hmemd⟩

end Loops

end GraphConformance
