import GraphConformance.Proofs.Knowledge.Decision
import GraphConformance.Proofs.Knowledge.Profiles

/-!
# Kinds of acceptance by strictness

An individual that is accepted as equivalent to another one is accepted as a special and as a more
general case of it; a special case is accepted where nothing said of the individual would do as
well; and every accepted individual is accepted by the kind that compares nothing
(`accepts_of_stricter`).

One of these steps compares different profiles: the identity of the individual is a part of its
profile where the two profiles are to be equivalent, and not where its profile has to contain the
other. Left out, it is one part less for the other profile to be contained in
(`Store.subsumes_meet_tail`), and what is left may be a single part or nothing. The other profile
has no such part itself, so it was contained by the rule for intersections, and the remaining parts
need no more rounds than before.
-/

set_option autoImplicit false

namespace GraphConformance

open Vocabulary

/-! ## One part less -/

namespace Store

variable {s : Store} {sub part : Expression} {parts : List Expression} {n : Nat}

/-- An intersection is accepted on the right in a round after its parts, or at once. -/
theorem entailsFreely_conj_iff (hsub : sub.isUnion = false) :
    s.entailsFreely (n + 1) sub (.conj parts) = true ↔
      (sub = .conj parts ∨ sub = .bottom) ∨ ∀ e ∈ parts, s.entailsFreely n sub e = true := by
  rw [entailsFreely_succ_iff, holdsAnyway_iff, step_rightIntersection hsub, List.all_eq_true]
  simp

/-- Where each part is accepted, their intersection is accepted in one round more. -/
theorem entailsFreely_meet (hsub : sub.isUnion = false)
    (h : ∀ e ∈ parts, e.isTop = false → s.entailsFreely n sub e = true) :
    s.entailsFreely (n + 1) sub (.meet parts) = true := by
  have hkept : ∀ e ∈ Distinct.dedup (parts.filter (!·.isTop)), s.entailsFreely n sub e = true := by
    intro e he
    obtain ⟨hmem, htop⟩ := List.mem_filter.mp (Distinct.mem_dedup.mp he)
    exact h e hmem (by simpa using htop)
  rw [Expression.meet]
  split
  · exact entailsFreely_of_holdsAnyway (holdsAnyway_iff.mpr (Or.inr (Or.inl rfl))) _
  · rename_i e heq
    rw [heq] at hkept
    exact entailsFreely_mono n.le_succ (hkept e List.mem_cons_self)
  · exact (entailsFreely_conj_iff hsub).mpr (Or.inr hkept)

/-- What is contained in an intersection, and is not that intersection itself, is contained in the
intersection of all parts but the first. -/
theorem subsumes_meet_tail {maxDepth : Nat} (hsub : sub.isUnion = false)
    (hne : sub ≠ .meet (part :: parts)) (htop : part.isTop = false) (hpart : part ∉ parts)
    (h : s.subsumes maxDepth sub (.meet (part :: parts)) = true) :
    s.subsumes maxDepth sub (.meet parts) = true := by
  have hkept : Distinct.dedup ((part :: parts).filter (!·.isTop)) =
      part :: Distinct.dedup (parts.filter (!·.isTop)) := by
    rw [List.filter_cons_of_pos (by simpa using htop)]
    exact Distinct.dedup_cons fun hmem => hpart (List.mem_of_mem_filter hmem)
  rw [subsumes_eq_entailsFreely] at h ⊢
  rw [Expression.meet, hkept] at h hne
  cases hrest : Distinct.dedup (parts.filter (!·.isTop)) with
  | nil =>
    -- nothing is left to be contained in
    rw [Expression.meet, hrest]
    exact entailsFreely_of_holdsAnyway (holdsAnyway_iff.mpr (Or.inr (Or.inl rfl))) _
  | cons c cs =>
    rw [hrest] at h hne
    rcases (entailsFreely_conj_iff hsub).mp h with (heq | hbottom) | hall
    · exact absurd heq hne
    · exact entailsFreely_of_holdsAnyway (holdsAnyway_iff.mpr (Or.inr (Or.inr hbottom))) _
    · -- every part was accepted a round earlier, so each of the others still is
      apply entailsFreely_meet hsub
      intro e he hproper
      apply hall
      rw [← hrest]
      apply List.mem_cons_of_mem
      exact Distinct.mem_dedup.mpr (List.mem_filter.mpr ⟨he, by simpa using hproper⟩)

end Store

/-! ## Profiles with and without identity -/

namespace Expression

/-- What types and edges say of an individual: a class, or that a property has a value. -/
def isFact : Expression → Bool
  | top | bottom | concept _ | someOf .. => true
  | _ => false

/-- The parts of an intersection; anything else is its only part. -/
def conjuncts : Expression → List Expression
  | conj parts => parts
  | e => [e]

variable {facts parts : List Expression} {e : Expression}

theorem conjuncts_of_isFact (h : e.isFact = true) : e.conjuncts = [e] := by
  cases e with
  | conj parts => exact absurd h (by simp [isFact])
  | _ => rfl

theorem isFact_of_mem_conjuncts_meet (hfacts : ∀ e ∈ facts, e.isFact = true)
    (he : e ∈ (meet facts).conjuncts) : e.isFact = true := by
  have hkept : ∀ e ∈ Distinct.dedup (facts.filter (!·.isTop)), e.isFact = true := by
    intro e he
    exact hfacts e (List.mem_of_mem_filter (Distinct.mem_dedup.mp he))
  rw [meet] at he
  split at he
  · rw [List.mem_singleton.mp he]
    rfl
  · rename_i fact heq
    rw [heq] at hkept
    have hfact := hkept fact List.mem_cons_self
    rw [conjuncts_of_isFact hfact, List.mem_singleton] at he
    rwa [he]
  · exact hkept e he

theorem nominal_mem_conjuncts_meet {a : Term} (h : .nominal a ∈ parts) :
    .nominal a ∈ (meet parts).conjuncts := by
  have hkept : .nominal a ∈ Distinct.dedup (parts.filter (!·.isTop)) :=
    Distinct.mem_dedup.mpr (List.mem_filter.mpr ⟨h, rfl⟩)
  rw [meet]
  split
  · rename_i heq
    rw [heq] at hkept
    exact absurd hkept (by simp)
  · rename_i part heq
    rw [heq, List.mem_singleton] at hkept
    rw [← hkept]
    exact List.mem_singleton_self _
  · exact hkept

/-- An intersection that names an individual is not one of facts. -/
theorem meet_ne_meet_of_nominal_mem {a : Term} (hfacts : ∀ e ∈ facts, e.isFact = true)
    (h : .nominal a ∈ parts) : meet facts ≠ meet parts := by
  intro heq
  have hmem := nominal_mem_conjuncts_meet h
  rw [← heq] at hmem
  exact absurd (isFact_of_mem_conjuncts_meet hfacts hmem) (by simp [isFact])

theorem isUnion_meet (hfacts : ∀ e ∈ facts, e.isFact = true) : (meet facts).isUnion = false := by
  apply isUnion_eq_false
  intro branches heq
  have hmem : disj branches ∈ (meet facts).conjuncts := by
    rw [heq]
    exact List.mem_singleton_self _
  exact absurd (isFact_of_mem_conjuncts_meet hfacts hmem) (by simp [isFact])

end Expression

namespace Knowledge

variable {k : Knowledge} {x y : Term}

theorem isFact_of_mem_typeParts {types : List Term} {e : Expression} (he : e ∈ typeParts x types) :
    e.isFact = true := by
  obtain ⟨t, -, ht⟩ := List.mem_filterMap.mp he
  cases t with
  | iri i =>
    rw [Term.typeExpression?] at ht
    split at ht
    · exact absurd ht (by simp)
    · rw [← Option.some.inj ht, Expression.named]
      split
      · rfl
      · split <;> rfl
  | literal l => exact absurd ht (by simp [Term.typeExpression?])
  | blank b =>
    rw [← Option.some.inj ht]
    rfl

theorem isFact_of_mem_edgeParts {describe : Term → List Triple → Described} {edges : List Edge}
    {followed after : List Triple} {parts : List Expression}
    (h : edgeParts describe x edges followed = .ok (parts, after)) :
    ∀ e ∈ parts, e.isFact = true := by
  induction edges generalizing followed after parts with
  | nil =>
    obtain ⟨rfl, -⟩ := Prod.mk.inj (Except.ok.inj h)
    simp
  | cons edge rest ih =>
    obtain ⟨property, value⟩ := edge
    rw [edgeParts] at h
    split at h
    · exact ih h
    -- an edge that was followed before is not described again, but both say that there is a value
    · split at h
      · obtain ⟨⟨others, reached⟩, hothers, h⟩ := bind_eq_ok_iff.mp h
        obtain ⟨rfl, -⟩ := Prod.mk.inj (Except.ok.inj h)
        exact List.forall_mem_cons.mpr ⟨rfl, ih hothers⟩
      · obtain ⟨⟨filler, inside⟩, -, h⟩ := bind_eq_ok_iff.mp h
        obtain ⟨⟨others, reached⟩, hothers, h⟩ := bind_eq_ok_iff.mp h
        obtain ⟨rfl, -⟩ := Prod.mk.inj (Except.ok.inj h)
        exact List.forall_mem_cons.mpr ⟨rfl, ih hothers⟩

/-- The profile of an individual is the intersection of its identity, where that is asked for, and
of facts that are the same whether it is or not. -/
theorem exists_facts_of_profile {identity nested : Bool} {e : Expression}
    (hx : x.isIndividual = true) (h : k.profile x identity nested = .ok e) :
    ∃ facts, (∀ fact ∈ facts, fact.isFact = true) ∧
      ∀ identity, k.profile x identity nested = .ok (.meet (identityPart identity x ++ facts)) := by
  obtain ⟨followed, h⟩ := profile_eq_ok_iff.mp h
  rw [describe_succ hx] at h
  obtain ⟨types, htypes, h⟩ := bind_eq_ok_iff.mp h
  obtain ⟨edges, hedges, h⟩ := bind_eq_ok_iff.mp h
  obtain ⟨⟨parts, reached⟩, hparts, -⟩ := bind_eq_ok_iff.mp h
  refine ⟨typeParts x types ++ parts, ?_, ?_⟩
  · intro fact hfact
    rcases List.mem_append.mp hfact with hfact | hfact
    · exact isFact_of_mem_typeParts hfact
    · exact isFact_of_mem_edgeParts hparts fact hfact
  · intro identity
    apply profile_eq_ok_iff.mpr
    rw [describe_succ hx, ← List.append_assoc]
    exact ⟨reached, bind_eq_ok_iff.mpr ⟨types, htypes, bind_eq_ok_iff.mpr ⟨edges, hedges,
      bind_eq_ok_iff.mpr ⟨_, hparts, rfl⟩⟩⟩⟩

theorem profile_literal (l : Literal) (identity nested : Bool) :
    k.profile (.literal l) identity nested = .ok (.concept (.iri l.effectiveDatatype)) := rfl

/-- A profile without identities is an intersection of facts, for a literal of its datatype. -/
theorem exists_facts_of_profile_anonymous {e : Expression} (h : k.profile y false false = .ok e) :
    ∃ facts, (∀ fact ∈ facts, fact.isFact = true) ∧ e = .meet facts := by
  by_cases hy : y.isIndividual = true
  · obtain ⟨facts, hfacts, hprofile⟩ := exists_facts_of_profile hy h
    exact ⟨facts, hfacts, Except.ok.inj (h.symm.trans (hprofile false))⟩
  · obtain ⟨l, rfl⟩ := Term.exists_literal (by simpa using hy)
    rw [profile_literal, Except.ok.injEq] at h
    subst h
    exact ⟨[.concept (.iri l.effectiveDatatype)], by simp [Expression.isFact], rfl⟩

/-! ## Acceptance -/

theorem accepts_eq_true_iff {kind : MappingKind} (hkind : kind ≠ .any) :
    k.accepts kind x y = true ↔ ∃ p t, k.profile x (kind != .super) false = .ok p ∧
      k.profile y false false = .ok t ∧ k.related kind p t = true := by
  rw [accepts, if_neg hkind]
  constructor
  · intro h
    split at h
    · rename_i p t hp ht
      exact ⟨p, t, hp, ht, h⟩
    · exact absurd h (by simp)
  · rintro ⟨p, t, hp, ht, h⟩
    simp only [hp, ht, h]

/-- What is contained in the profile of an individual with its identity is contained in the profile
without it. -/
theorem exists_profile_without_identity {p t : Expression} (hp : k.profile x true false = .ok p)
    (ht : k.profile y false false = .ok t) (h : k.subsumes t p = true) :
    ∃ q, k.profile x false false = .ok q ∧ k.subsumes t q = true := by
  by_cases hx : x.isIndividual = true
  · obtain ⟨facts, hfacts, hprofile⟩ := exists_facts_of_profile hx hp
    obtain ⟨others, hothers, rfl⟩ := exists_facts_of_profile_anonymous ht
    obtain rfl := Except.ok.inj (hp.symm.trans (hprofile true))
    refine ⟨.meet facts, hprofile false, ?_⟩
    by_cases hanonymous : x.isAnonymous = true
    · -- such an individual has no identity to show
      simpa [identityPart, hanonymous] using h
    · have hidentity : identityPart true x = [.nominal x] := by simp [identityPart, hanonymous]
      rw [hidentity, List.singleton_append] at h
      have hnew : .nominal x ∉ facts := by
        intro hmem
        exact absurd (hfacts _ hmem) (by simp [Expression.isFact])
      exact Store.subsumes_meet_tail (Expression.isUnion_meet hothers)
        (Expression.meet_ne_meet_of_nominal_mem hothers List.mem_cons_self) rfl hnew h
  · obtain ⟨l, rfl⟩ := Term.exists_literal (by simpa using hx)
    rw [profile_literal] at hp
    exact ⟨p, hp, h⟩

end Knowledge

/-- An individual that is accepted as equivalent to another one is accepted as a special and as a
more general case of it, one that is accepted as a special case is accepted if nothing need be said
of it, and whatever is accepted by some kind is accepted by the one that compares nothing. -/
theorem accepts_of_stricter (k : Knowledge) (x y : Term) :
    (k.accepts .equivalent x y = true →
        k.accepts .sub x y = true ∧ k.accepts .super x y = true) ∧
      (k.accepts .sub x y = true → k.accepts .subIfNotTop x y = true) ∧
      ∀ kind, k.accepts kind x y = true → k.accepts .any x y = true := by
  refine ⟨?_, ?_, fun kind _ => rfl⟩
  · intro h
    obtain ⟨p, t, hp, ht, h⟩ := (Knowledge.accepts_eq_true_iff (by decide)).mp h
    obtain ⟨hsub, hsuper⟩ : k.subsumes p t = true ∧ k.subsumes t p = true := by
      simpa [Knowledge.related, Knowledge.equivalent] using h
    obtain ⟨q, hq, hsuper⟩ := Knowledge.exists_profile_without_identity hp ht hsuper
    exact ⟨(Knowledge.accepts_eq_true_iff (by decide)).mpr ⟨p, t, hp, ht, hsub⟩,
      (Knowledge.accepts_eq_true_iff (by decide)).mpr ⟨q, t, hq, ht, hsuper⟩⟩
  · intro h
    obtain ⟨p, t, hp, ht, h⟩ := (Knowledge.accepts_eq_true_iff (by decide)).mp h
    refine (Knowledge.accepts_eq_true_iff (by decide)).mpr ⟨p, t, hp, ht, ?_⟩
    exact Bool.or_eq_true_iff.mpr (Or.inr h)

/-! C is the class that enumerates i, and t is a C: only the profile of i has an identity. -/

namespace OneMember

def knowledge : Knowledge where
  store := .ofList
    [⟨.iri ⟨"C"⟩, .iri Owl.equivalentClass, .blank ⟨0, none⟩⟩,
      ⟨.blank ⟨0, none⟩, .iri Owl.oneOf, .blank ⟨1, none⟩⟩,
      ⟨.blank ⟨1, none⟩, .iri Rdf.first, .iri ⟨"i"⟩⟩,
      ⟨.blank ⟨1, none⟩, .iri Rdf.rest, .iri Rdf.nil⟩,
      ⟨.iri ⟨"i"⟩, .iri Rdf.type, .iri ⟨"C"⟩⟩,
      ⟨.iri ⟨"t"⟩, .iri Rdf.type, .iri ⟨"C"⟩⟩]
  maxDepth := 2

def described : Expression := .conj [.nominal (.iri ⟨"i"⟩), .concept (.iri ⟨"C"⟩)]

theorem profile_member : knowledge.profile (.iri ⟨"i"⟩) true false = .ok described := rfl

theorem profile_other :
    knowledge.profile (.iri ⟨"t"⟩) false false = .ok (.concept (.iri ⟨"C"⟩)) := rfl

theorem expression_enumeration :
    knowledge.store.expression (.blank ⟨0, none⟩) = .nominal (.iri ⟨"i"⟩) := by
  have hform : knowledge.store.form? (.blank ⟨0, none⟩) =
      some (.enumeration (knowledge.store.listItems (.blank ⟨1, none⟩))) := rfl
  have hfirst : knowledge.store.object? (.blank ⟨1, none⟩) Rdf.first = some (.iri ⟨"i"⟩) := rfl
  have hrest : knowledge.store.object? (.blank ⟨1, none⟩) Rdf.rest = some (.iri Rdf.nil) := rfl
  have hitems : knowledge.store.listItems (.blank ⟨1, none⟩) = [.iri ⟨"i"⟩] := by
    rw [Store.listItems, Store.listFrom_of_not_end (by simp), hfirst, hrest]
    rw [Option.elim_some, Option.elim_some, Store.listFrom, dif_pos (Or.inl rfl)]
  rw [Store.expression, Store.readExpression_of_form? (by simp) hform, hitems]
  rfl

theorem equivalentClasses_C : knowledge.store.equivalentClasses (.iri ⟨"C"⟩) =
    [.nominal (.iri ⟨"i"⟩)] := by
  have hobjects : knowledge.store.objects (.iri ⟨"C"⟩) Owl.equivalentClass =
      [.blank ⟨0, none⟩] := by decide
  have hsubjects : knowledge.store.subjects Owl.equivalentClass (.iri ⟨"C"⟩) = [] := by decide
  rw [Store.equivalentClasses, hobjects, hsubjects, List.append_nil, List.map_singleton,
    expression_enumeration]
  rfl

theorem subsumes_other : knowledge.subsumes described (.concept (.iri ⟨"C"⟩)) = true := by
  rw [Knowledge.subsumes, Store.subsumes]
  apply Store.entails_of_step (by simp)
  apply Store.step_of_rule (.part rfl (List.mem_cons_of_mem _ List.mem_cons_self))
  rw [List.forall_mem_singleton]
  exact Store.entails_of_holdsAnyway (by decide) _ _

/-- Each C is the member, as C is defined by it. -/
theorem subsumes_member : knowledge.subsumes (.concept (.iri ⟨"C"⟩)) described = true := by
  have hdefined : .nominal (.iri ⟨"i"⟩) ∈ knowledge.store.superClasses (.iri ⟨"C"⟩) ++
      knowledge.store.equivalentClasses (.iri ⟨"C"⟩) := by
    rw [equivalentClasses_C]
    exact List.mem_append_right _ (List.mem_singleton_self _)
  rw [Knowledge.subsumes, Store.subsumes]
  apply Store.entails_of_step (by simp)
  apply Store.step_of_rule (.rightIntersection rfl)
  rw [List.forall_mem_map, List.forall_mem_cons, List.forall_mem_singleton]
  constructor
  · apply Store.entails_of_step (by simp [described])
    apply Store.step_of_rule (.told rfl hdefined)
    rw [List.forall_mem_singleton]
    exact Store.entails_of_holdsAnyway (by decide) _ _
  · exact Store.entails_of_holdsAnyway (by decide) _ _

theorem accepts_equivalent :
    knowledge.accepts .equivalent (.iri ⟨"i"⟩) (.iri ⟨"t"⟩) = true := by
  refine (Knowledge.accepts_eq_true_iff (by decide)).mpr
    ⟨described, .concept (.iri ⟨"C"⟩), profile_member, profile_other, ?_⟩
  exact Bool.and_eq_true_iff.mpr ⟨subsumes_other, subsumes_member⟩

/-- The member is equivalent to the other individual, so it is accepted by the weaker kinds. -/
theorem accepts_member :
    knowledge.accepts .sub (.iri ⟨"i"⟩) (.iri ⟨"t"⟩) = true ∧
      knowledge.accepts .super (.iri ⟨"i"⟩) (.iri ⟨"t"⟩) = true ∧
      knowledge.accepts .subIfNotTop (.iri ⟨"i"⟩) (.iri ⟨"t"⟩) = true ∧
      knowledge.accepts .any (.iri ⟨"i"⟩) (.iri ⟨"t"⟩) = true := by
  obtain ⟨hequivalent, hsub, hany⟩ := accepts_of_stricter knowledge (.iri ⟨"i"⟩) (.iri ⟨"t"⟩)
  obtain ⟨hspecial, hgeneral⟩ := hequivalent accepts_equivalent
  exact ⟨hspecial, hgeneral, hsub hspecial, hany .super hgeneral⟩

end OneMember

end GraphConformance
