import GraphConformance.Proofs.Evidence.Evaluation
import GraphConformance.Proofs.Evidence.History

/-!
# Closed-world evaluation follows the rules

A round of closed-world evaluation combines findings by `findAll`, `findEach` and `findFirst`; read
as sets of statements these are what the rules ask for, one lemma for each form of expression
(`Knowledge.evaluates_conj` and so on). So closed-world evaluation follows the rules
(`Knowledge.Evaluates.of_closedWorld`). A translator that has counted no cycle has answered each
call by them and in no other way (`evaluates_iff_of_cycles_eq_zero`).
-/

set_option autoImplicit false

namespace GraphConformance

open Vocabulary Evidence

variable {k : Knowledge}

/-! ## Combinations of findings, as sets -/

/-- What a fold collects, when each step adds what belongs to its item. -/
theorem mem_foldl_iff {α β : Type} {step : List β → α → List β} {P : α → β → Prop}
    (h : ∀ collected a b, b ∈ step collected a ↔ b ∈ collected ∨ P a b) (collected : List β)
    (items : List α) (b : β) :
    b ∈ items.foldl step collected ↔ b ∈ collected ∨ ∃ a ∈ items, P a b := by
  induction items generalizing collected with
  | nil => simp
  | cons a items ih => rw [List.foldl_cons, ih, h, or_assoc, List.exists_mem_cons_iff]

namespace Finding

theorem statements_eq {found : List Triple} {S : Set Triple} (h : ∀ t, t ∈ found ↔ t ∈ S) :
    statements (some found) = some S :=
  congrArg some (Set.ext h)

theorem getD_statements (finding : Finding) :
    finding.statements.getD ∅ = {t | t ∈ finding.getD []} := by
  cases finding with
  | none => exact (Set.eq_empty_of_forall_notMem (by simp)).symm
  | some found => rfl

theorem statements_nil : statements (some []) = some ∅ :=
  statements_eq (by simp)

theorem mem_union {findings : List Finding} {t : Triple} :
    t ∈ union findings ↔ ∃ finding ∈ findings, t ∈ finding.getD [] := by
  rw [union, mem_foldl_iff (P := fun finding t => t ∈ finding.getD [])]
  · simp
  · exact fun _ _ _ => Distinct.mem_union

theorem mem_ofValues {p x : Term} {findings : List (Term × Finding)} {t : Triple} :
    t ∈ ofValues p x findings ↔
      ∃ pair ∈ findings, ∃ found, pair.2 = some found ∧ (t = ⟨x, p, pair.1⟩ ∨ t ∈ found) := by
  rw [ofValues, mem_foldl_iff (P := fun pair t =>
    ∃ found, pair.2 = some found ∧ (t = ⟨x, p, pair.1⟩ ∨ t ∈ found))]
  · simp
  · rintro collected ⟨v, finding⟩ t
    cases finding with
    | none => simp
    | some found => simp [or_assoc]

end Finding

section Findings

variable {ι : Type} {f : ι → Option Finding} {is : List ι}

theorem findAll_cons_some (found : List Triple) (rest : List (Option Finding)) :
    findAll (some (some found) :: rest) =
      (findAll rest).map (Option.map (Distinct.union found)) := by
  rw [findAll]
  cases findAll rest <;> rfl

/-- An intersection fails where some part fails. -/
theorem exists_of_findAll_eq_none (h : findAll (is.map f) = some none) :
    ∃ i ∈ is, f i = some none := by
  induction is with
  | nil => exact absurd h (by simp [findAll])
  | cons i is ih =>
    rw [List.map_cons, findAll] at h
    obtain ⟨finding, hfinding, hrest⟩ := Option.bind_eq_some_iff.mp h
    cases finding with
    | none => exact ⟨i, List.mem_cons_self, hfinding⟩
    | some found =>
      obtain ⟨more, hmore, hnone⟩ := Option.bind_eq_some_iff.mp hrest
      cases more with
      | some all => exact absurd hnone (by simp)
      | none =>
        obtain ⟨j, hj, hfj⟩ := ih hmore
        exact ⟨j, List.mem_cons_of_mem _ hj, hfj⟩

/-- An intersection holds where all parts hold, with all that they find. -/
theorem forall_of_findAll_eq_some {all : List Triple} (h : findAll (is.map f) = some (some all)) :
    (∀ i ∈ is, ∃ found, f i = some (some found)) ∧
      ∀ t, t ∈ all ↔ ∃ i ∈ is, t ∈ (f i).join.getD [] := by
  induction is generalizing all with
  | nil =>
    obtain rfl := Option.some.inj (Option.some.inj h)
    simp
  | cons i is ih =>
    rw [List.map_cons, findAll] at h
    obtain ⟨finding, hfinding, hrest⟩ := Option.bind_eq_some_iff.mp h
    cases finding with
    | none => exact absurd hrest (by simp)
    | some found =>
      obtain ⟨more, hmore, hall⟩ := Option.bind_eq_some_iff.mp hrest
      cases more with
      | none => exact absurd hall (by simp)
      | some rest =>
        obtain rfl := Option.some.inj (Option.some.inj hall)
        obtain ⟨hforall, hmem⟩ := ih hmore
        refine ⟨List.forall_mem_cons.mpr ⟨⟨found, hfinding⟩, hforall⟩, ?_⟩
        intro t
        rw [Distinct.mem_union, hmem, List.exists_mem_cons_iff, hfinding]
        rfl

/-- What is found by each question. -/
theorem findEach_eq_some {findings : List Finding} (h : findEach (is.map f) = some findings) :
    (∀ i ∈ is, ∃ finding, f i = some finding) ∧ findings = is.map fun i => (f i).join := by
  induction is generalizing findings with
  | nil =>
    obtain rfl := Option.some.inj h
    simp
  | cons i is ih =>
    rw [List.map_cons, findEach] at h
    obtain ⟨finding, hfinding, hrest⟩ := Option.bind_eq_some_iff.mp h
    obtain ⟨more, hmore, hall⟩ := Option.bind_eq_some_iff.mp hrest
    obtain rfl := Option.some.inj hall
    obtain ⟨hforall, rfl⟩ := ih hmore
    refine ⟨List.forall_mem_cons.mpr ⟨⟨finding, hfinding⟩, hforall⟩, ?_⟩
    rw [List.map_cons, hfinding]
    rfl

/-- The first value that belongs to a filler stands behind values that do not. -/
theorem split_of_findFirst_eq_some {g : Term → Option Finding} {vs : List Term} {v : Term}
    {found : List Triple} (h : findFirst g vs = some (some (v, found))) :
    ∃ before after, vs = before ++ v :: after ∧ (∀ w ∈ before, g w = some none) ∧
      g v = some (some found) := by
  induction vs with
  | nil => exact absurd h (by simp [findFirst])
  | cons w vs ih =>
    rw [findFirst] at h
    obtain ⟨finding, hfinding, hrest⟩ := Option.bind_eq_some_iff.mp h
    cases finding with
    | some found' =>
      obtain ⟨rfl, rfl⟩ := Prod.mk.inj (Option.some.inj (Option.some.inj hrest))
      exact ⟨[], vs, rfl, by simp, hfinding⟩
    | none =>
      obtain ⟨before, after, rfl, hbefore, hv⟩ := ih hrest
      exact ⟨w :: before, after, rfl, List.forall_mem_cons.mpr ⟨hfinding, hbefore⟩, hv⟩

theorem forall_of_findFirst_eq_none {g : Term → Option Finding} {vs : List Term}
    (h : findFirst g vs = some none) : ∀ v ∈ vs, g v = some none := by
  induction vs with
  | nil => simp
  | cons w vs ih =>
    rw [findFirst] at h
    obtain ⟨finding, hfinding, hrest⟩ := Option.bind_eq_some_iff.mp h
    cases finding with
    | some found => exact absurd hrest (by simp)
    | none => exact List.forall_mem_cons.mpr ⟨hfinding, ih hrest⟩

end Findings

/-! ## Closed-world evaluation follows the rules -/

namespace Knowledge

variable {k : Knowledge} {e : Expression} {x : Term}

theorem reasoner_values? (k : Knowledge) (p x : Term) : k.reasoner.values? p x = k.values? p x := by
  have hedges : ∀ y : Term, (k.edges y).toOption.map (fun edges =>
      (edges.filter (·.1 = p)).map Prod.snd) =
        if k.store.mentions y then
          some ((k.store.triples.filter fun t => t.subject = y ∧ t.predicate = p).map Triple.object)
        else none := by
    intro y
    unfold edges ifMentioned
    split
    · rw [Store.outgoing_eq_edgesFrom, edgesFrom]
      simp [Except.toOption, List.filter_map, Triple.edge, Function.comp_def, Bool.and_comm]
      rfl
    · rfl
  cases x with
  | literal l => rfl
  | iri i => exact hedges (.iri i)
  | blank b => exact hedges (.blank b)

theorem values?_eq_none {p : Term} (h : k.values? p x = none) :
    x.isIndividual = true ∧ k.store.mentions x = false := by
  unfold values? at h
  split at h
  · rename_i hx
    split at h
    · exact absurd h (by simp)
    · rename_i hm
      exact ⟨hx, Bool.eq_false_iff.mpr hm⟩
  · exact absurd h (by simp)

/-- A restriction goes on with the values that are known, or fails because nothing is known. -/
theorem values_cases {p : Term} {next : List Term → Option Finding} {finding : Finding}
    (h : k.reasoner.withValues p x next = some finding) :
    (∃ vs, k.values? p x = some vs ∧ next vs = some finding) ∨
      x.isIndividual = true ∧ k.store.mentions x = false ∧ finding = none := by
  rw [Reasoner.withValues, reasoner_values?] at h
  cases hvs : k.values? p x with
  | some vs =>
    rw [hvs] at h
    exact Or.inl ⟨vs, rfl, h⟩
  | none =>
    rw [hvs] at h
    obtain ⟨hx, hm⟩ := values?_eq_none hvs
    exact Or.inr ⟨hx, hm, (Option.some.inj h).symm⟩

theorem isMember_iff {c : Term} :
    (k.store.types x).any (fun t => t = c || k.subsumes (typeExpression t) (.concept c)) = true ↔
      k.IsMember x c := by
  rw [List.any_eq_true]
  simp [IsMember]

instance (k : Knowledge) (x c : Term) : Decidable (k.IsMember x c) :=
  decidable_of_iff _ isMember_iff

section Round

variable {ask : Expression → Term → Option Finding}
  (hask : ∀ e x finding, ask e x = some finding → k.Evaluates e x finding.statements)

include hask

/-- The findings about several parts follow the rules. -/
theorem evaluates_join {finding : Finding} (h : ask e x = some finding) :
    k.Evaluates e x (Finding.statements (ask e x).join) := by
  rw [h]
  exact hask e x finding h

theorem evaluates_getD {found : List Triple} (h : ask e x = some (some found)) :
    k.Evaluates e x (some {t | t ∈ (ask e x).join.getD []}) := by
  rw [h]
  exact hask e x (some found) h

theorem evaluates_none (h : ask e x = some none) : k.Evaluates e x none :=
  hask e x none h

theorem evaluates_conj {parts : List Expression} {finding : Finding}
    (h : findAll (parts.map (ask · x)) = some finding) :
    k.Evaluates (.conj parts) x finding.statements := by
  cases finding with
  | none =>
    obtain ⟨e, he, hnone⟩ := exists_of_findAll_eq_none h
    exact .conj_none he (evaluates_none hask hnone)
  | some all =>
    obtain ⟨hparts, hmem⟩ := forall_of_findAll_eq_some h
    rw [Finding.statements_eq (S := ⋃ e ∈ parts, {t | t ∈ (ask e x).join.getD []})]
    · refine .conj fun e he => ?_
      obtain ⟨found, hfound⟩ := hparts e he
      exact evaluates_getD hask hfound
    · simpa using hmem

theorem evaluates_disj {branches : List Expression} {findings : List Finding}
    (h : findEach (branches.map (ask · x)) = some findings) :
    k.Evaluates (.disj branches) x
      (Finding.statements
        (if findings.any Option.isSome then some (Finding.union findings) else none)) := by
  obtain ⟨hbranches, rfl⟩ := findEach_eq_some h
  have heach : ∀ e ∈ branches, k.Evaluates e x (Finding.statements (ask e x).join) := by
    intro e he
    obtain ⟨finding, hfinding⟩ := hbranches e he
    exact evaluates_join hask hfinding
  have hany : (branches.map fun e => (ask e x).join).any Option.isSome = true ↔
      ∃ e ∈ branches, Finding.statements (ask e x).join ≠ none := by
    simp [List.any_eq_true, Finding.statements, Option.isSome_iff_ne_none]
  by_cases hsome : (branches.map fun e => (ask e x).join).any Option.isSome = true
  · rw [if_pos hsome, Finding.statements_eq
      (S := ⋃ e ∈ branches, (Finding.statements (ask e x).join).getD ∅)]
    · exact .disj heach (hany.mp hsome)
    · intro t
      simp [Finding.mem_union, Finding.getD_statements]
  · rw [if_neg hsome]
    refine .disj_none fun e he => ?_
    have hnone : Finding.statements (ask e x).join = none := by
      by_contra hne
      exact hsome (hany.mpr ⟨e, he, hne⟩)
    exact hnone ▸ heach e he

theorem evaluates_compl {part : Expression} {finding : Finding} (h : ask part x = some finding) :
    k.Evaluates (.compl part) x
      (Finding.statements (if finding.isSome then none else some [])) := by
  have hpart := hask part x finding h
  cases finding with
  | none => exact Finding.statements_nil ▸ .compl hpart
  | some found => exact .compl_none hpart

theorem evaluates_someOf {p : Term} {filler : Expression} {vs : List Term}
    {first : Option (Term × List Triple)} (hvs : k.values? p x = some vs)
    (h : findFirst (ask filler) vs = some first) :
    k.Evaluates (.someOf p filler) x
      (Finding.statements (first.map fun (v, found) => Distinct.union [⟨x, p, v⟩] found)) := by
  cases first with
  | none =>
    have hnone := forall_of_findFirst_eq_none h
    exact .someOf_none hvs fun v hv => evaluates_none hask (hnone v hv)
  | some pair =>
    obtain ⟨v, found⟩ := pair
    obtain ⟨before, after, rfl, hbefore, hv⟩ := split_of_findFirst_eq_some h
    rw [Option.map_some, Finding.statements_eq (S := insert ⟨x, p, v⟩ {t | t ∈ found})]
    · exact .someOf hvs (fun w hw => evaluates_none hask (hbefore w hw)) (hask filler v _ hv)
    · simp

theorem evaluates_onlyOf {p : Term} {filler : Expression} {vs : List Term}
    {findings : List Finding} (hvs : k.values? p x = some vs)
    (h : findEach (vs.map (ask filler)) = some findings) :
    k.Evaluates (.onlyOf p filler) x (Finding.statements (if findings.all Option.isSome then
        some (Finding.ofValues p x (vs.zip findings))
      else none)) := by
  obtain ⟨hvalues, rfl⟩ := findEach_eq_some h
  by_cases hall : (vs.map fun v => (ask filler v).join).all Option.isSome = true
  · have hheld : ∀ v ∈ vs, ∃ found, ask filler v = some (some found) := by
      intro v hv
      obtain ⟨finding, hfinding⟩ := hvalues v hv
      have hsome := List.all_eq_true.mp hall _ (List.mem_map.mpr ⟨v, hv, rfl⟩)
      rw [hfinding] at hsome ⊢
      obtain ⟨found, rfl⟩ := Option.isSome_iff_exists.mp hsome
      exact ⟨found, rfl⟩
    rw [if_pos hall, Finding.statements_eq
      (S := ⋃ v ∈ vs, insert ⟨x, p, v⟩ {t | t ∈ (ask filler v).join.getD []})]
    · refine .onlyOf hvs fun v hv => ?_
      obtain ⟨found, hfound⟩ := hheld v hv
      exact evaluates_getD hask hfound
    · intro t
      rw [← List.map_prod_left_eq_zip, Finding.mem_ofValues, Set.mem_iUnion₂]
      constructor
      · rintro ⟨pair, hpair, found, hfound, ht⟩
        obtain ⟨v, hv, rfl⟩ := List.mem_map.mp hpair
        refine ⟨v, hv, ?_⟩
        rw [show (ask filler v).join = some found from hfound]
        exact ht
      · rintro ⟨v, hv, ht⟩
        obtain ⟨found, hfound⟩ := hheld v hv
        rw [hfound] at ht
        refine ⟨_, List.mem_map.mpr ⟨v, hv, rfl⟩, found, ?_, ht⟩
        rw [hfound]
        rfl
  · rw [if_neg hall]
    obtain ⟨v, hv, hnone⟩ : ∃ v ∈ vs, (ask filler v).join = none := by
      simpa using hall
    obtain ⟨finding, hfinding⟩ := hvalues v hv
    rw [hfinding] at hnone
    obtain rfl : finding = none := hnone
    exact .onlyOf_none hvs hv (evaluates_none hask hfinding)

end Round

theorem statements_edgesTo (p : Term) (vs : List Term) :
    Finding.statements (some (Distinct.dedup (vs.map (⟨x, p, ·⟩)))) = some (edgesTo x p vs) :=
  Finding.statements_eq fun t => by simp [edgesTo, eq_comm]

theorem evaluates_atLeast {p : Term} {n : Nat} {vs : List Term} (hvs : k.values? p x = some vs) :
    k.Evaluates (.atLeast p n) x (Finding.statements
      (if vs.length < n then none else some (Distinct.dedup (vs.map (⟨x, p, ·⟩))))) := by
  split
  · rename_i hlow
    exact .atLeast_none hvs hlow
  · rename_i hlow
    exact statements_edgesTo p vs ▸ .atLeast hvs (Nat.le_of_not_lt hlow)

theorem evaluates_atMost {p : Term} {n : Nat} {vs : List Term} (hvs : k.values? p x = some vs) :
    k.Evaluates (.atMost p n) x (Finding.statements
      (if n = 0 ∧ 0 < vs.length then none
      else some (Distinct.dedup (vs.map (⟨x, p, ·⟩))))) := by
  split
  · rename_i hhigh
    obtain ⟨rfl, hpos⟩ := hhigh
    exact .atMost_none hvs (List.ne_nil_of_length_pos hpos)
  · rename_i hhigh
    refine statements_edgesTo p vs ▸ .atMost hvs fun hn => ?_
    by_contra hne
    exact hhigh ⟨hn, List.length_pos_of_ne_nil hne⟩

theorem evaluates_exactly {p : Term} {n : Nat} {vs : List Term} (hvs : k.values? p x = some vs) :
    k.Evaluates (.exactly p n) x (Finding.statements
      (if vs.length < n ∨ n = 0 ∧ 0 < vs.length then none
      else some (Distinct.dedup (vs.map (⟨x, p, ·⟩))))) := by
  split
  · rename_i hbad
    exact .exactly_none hvs (hbad.imp id (And.imp id List.ne_nil_of_length_pos))
  · rename_i hgood
    rw [not_or] at hgood
    refine statements_edgesTo p vs ▸ .exactly hvs (Nat.le_of_not_lt hgood.1) fun hn => ?_
    by_contra hne
    exact hgood.2 ⟨hn, List.length_pos_of_ne_nil hne⟩

theorem evaluates_selfOf {p : Term} {vs : List Term} (hvs : k.values? p x = some vs) :
    k.Evaluates (.selfOf p) x
      (Finding.statements (if x ∈ vs then some [⟨x, p, x⟩] else none)) := by
  split
  · rename_i hx
    rw [Finding.statements_eq (S := {⟨x, p, x⟩}) (by simp)]
    exact .selfOf hvs hx
  · rename_i hx
    exact .selfOf_none hvs hx

/-- Nothing is asked about the classes of an individual that is not mentioned. -/
theorem inClass_of_not_mentions {unfold : Expression → Option Finding} {c : Term}
    (hx : x.isIndividual = true) (hm : k.store.mentions x = false) :
    k.reasoner.inClass unfold c x = some none := by
  have htypes : k.reasoner.types x = .error (.unknownIndividual x) := by
    show k.ifMentioned x _ = _
    rw [ifMentioned, hm, if_neg Bool.false_ne_true]
  cases x with
  | literal l => exact nomatch hx
  | iri i => simp only [Reasoner.inClass, htypes]; rfl
  | blank b => simp only [Reasoner.inClass, htypes]; rfl

/-- An individual that is mentioned is asked for membership, and then for all definitions. -/
theorem inClass_of_mentions {unfold : Expression → Option Finding} {c : Term}
    (hx : x.isIndividual = true) (hm : k.store.mentions x = true) :
    k.reasoner.inClass unfold c x =
      if ¬ k.IsMember x c ∧ k.store.equivalentClasses c = [] then some none
      else (findAll ((k.definitions c).map unfold)).map
        (Option.map (Distinct.union (if k.IsMember x c then [⟨x, .iri Rdf.type, c⟩] else []))) := by
  have htypes : k.reasoner.types x = .ok (k.store.types x) := by
    show k.ifMentioned x _ = _
    rw [ifMentioned, hm, if_pos rfl]
  have hmember : (k.store.types x).any
      (fun t => t = c || k.subsumes (typeExpression t) (.concept c)) = decide (k.IsMember x c) := by
    rw [Bool.eq_iff_iff, decide_eq_true_iff]
    exact isMember_iff
  have hany : k.reasoner.inClass unfold c x =
      if !decide (k.IsMember x c) && (k.store.equivalentClasses c).isEmpty then some none
      else findAll (some (some (if decide (k.IsMember x c) then [⟨x, .iri Rdf.type, c⟩] else [])) ::
        (k.definitions c).map unfold) := by
    rw [← hmember]
    cases x with
    | literal l => exact nomatch hx
    | iri i => simp only [Reasoner.inClass, htypes]; rfl
    | blank b => simp only [Reasoner.inClass, htypes]; rfl
  rw [hany, findAll_cons_some]
  simp only [decide_eq_true_eq, Bool.and_eq_true, Bool.not_eq_true', decide_eq_false_iff_not,
    List.isEmpty_iff]

/-- The definitions of a class follow the rules if each of them does. -/
theorem evaluates_definitions {unfold : Expression → Option Finding} {c : Term} {rest : Finding}
    (hunfold : ∀ d finding, unfold d = some finding → k.Evaluates d x finding.statements)
    (hx : x.isIndividual = true) (hm : k.store.mentions x = true)
    (hmember : k.IsMember x c ∨ k.store.equivalentClasses c ≠ [])
    (h : findAll ((k.definitions c).map unfold) = some rest) :
    k.Evaluates (.concept c) x (Finding.statements
      (rest.map (Distinct.union (if k.IsMember x c then [⟨x, .iri Rdf.type, c⟩] else [])))) := by
  cases rest with
  | none =>
    obtain ⟨d, hd, hnone⟩ := exists_of_findAll_eq_none h
    exact .concept_none hx hd (hunfold d none hnone)
  | some all =>
    obtain ⟨hdefinitions, hmem⟩ := forall_of_findAll_eq_some h
    rw [Option.map_some, Finding.statements_eq
      (S := {t | k.IsMember x c ∧ t = ⟨x, .iri Rdf.type, c⟩} ∪
        ⋃ d ∈ k.definitions c, {t | t ∈ (unfold d).join.getD []})]
    · refine .concept hx hm hmember fun d hd => ?_
      obtain ⟨found, hfound⟩ := hdefinitions d hd
      rw [hfound]
      exact hunfold d (some found) hfound
    · intro t
      have hmembership : t ∈ (if k.IsMember x c then [⟨x, .iri Rdf.type, c⟩] else []) ↔
          k.IsMember x c ∧ t = ⟨x, .iri Rdf.type, c⟩ := by
        split <;> simp [*]
      rw [Distinct.mem_union, hmembership, hmem]
      simp

theorem evaluates_datatype {c : Term} {l : Literal} :
    k.Evaluates (.concept c) (.literal l) (Finding.statements
      (if c = .iri Rdfs.literal ∨ c = .iri l.effectiveDatatype then some [] else none)) := by
  split
  · rename_i h
    exact Finding.statements_nil ▸ .datatype h
  · rename_i h
    exact .datatype_none h

/-- Membership in a class follows the rules if the definitions do. -/
theorem evaluates_concept {unfold : Expression → Option Finding} {c : Term} {finding : Finding}
    (hunfold : ∀ d finding, unfold d = some finding → k.Evaluates d x finding.statements)
    (h : k.reasoner.inClass unfold c x = some finding) :
    k.Evaluates (.concept c) x finding.statements := by
  by_cases hx : x.isIndividual = true
  · by_cases hm : k.store.mentions x = true
    · rw [inClass_of_mentions hx hm] at h
      split at h
      · rename_i hnot
        obtain rfl := Option.some.inj h
        exact .concept_not_member hx hnot.1 hnot.2
      · rename_i hmember
        obtain ⟨rest, hrest, rfl⟩ := Option.map_eq_some_iff.mp h
        rw [not_and_or, not_not] at hmember
        exact evaluates_definitions hunfold hx hm hmember hrest
    · rw [inClass_of_not_mentions hx (Bool.eq_false_iff.mpr hm)] at h
      obtain rfl := Option.some.inj h
      exact .concept_unmentioned hx (Bool.eq_false_iff.mpr hm)
  · cases x with
    | literal l =>
      obtain rfl := Option.some.inj h
      exact evaluates_datatype
    | iri i => exact absurd rfl hx
    | blank b => exact absurd rfl hx

/-- A round follows the rules if its questions are answered by the rules. -/
theorem evaluates_of_round {ask unfold : Expression → Term → Option Finding} {finding : Finding}
    (hask : ∀ e x finding, ask e x = some finding → k.Evaluates e x finding.statements)
    (hunfold : ∀ d x finding, unfold d x = some finding → k.Evaluates d x finding.statements)
    (h : k.reasoner.round ask unfold e x = some finding) : k.Evaluates e x finding.statements := by
  cases e with
  | top =>
    obtain rfl := Option.some.inj h
    exact Finding.statements_nil ▸ .top
  | bottom =>
    obtain rfl := Option.some.inj h
    exact .bottom
  | valueOf p v =>
    obtain rfl := Option.some.inj h
    exact Finding.statements_nil ▸ .valueOf
  | nominal a =>
    obtain rfl := Option.some.inj h
    exact Finding.statements_nil ▸ .nominal
  | concept c => exact evaluates_concept (fun d => hunfold d x) h
  | conj parts => exact evaluates_conj hask h
  | disj branches =>
    obtain ⟨findings, hfindings, hfinding⟩ := Option.bind_eq_some_iff.mp h
    obtain rfl := Option.some.inj hfinding
    exact evaluates_disj hask hfindings
  | compl part =>
    obtain ⟨found, hfound, hfinding⟩ := Option.bind_eq_some_iff.mp h
    obtain rfl := Option.some.inj hfinding
    exact evaluates_compl hask hfound
  -- restrictions go on with the values, if these are known
  | someOf p filler =>
    rcases values_cases h with ⟨vs, hvs, hnext⟩ | ⟨hx, hm, rfl⟩
    · obtain ⟨first, hfirst, hfinding⟩ := Option.bind_eq_some_iff.mp hnext
      obtain rfl := Option.some.inj hfinding
      exact evaluates_someOf hask hvs hfirst
    · exact .unmentioned rfl hx hm
  | onlyOf p filler =>
    rcases values_cases h with ⟨vs, hvs, hnext⟩ | ⟨hx, hm, rfl⟩
    · obtain ⟨findings, hfindings, hfinding⟩ := Option.bind_eq_some_iff.mp hnext
      obtain rfl := Option.some.inj hfinding
      exact evaluates_onlyOf hask hvs hfindings
    · exact .unmentioned rfl hx hm
  | atLeast p n =>
    rcases values_cases h with ⟨vs, hvs, hnext⟩ | ⟨hx, hm, rfl⟩
    · obtain rfl := Option.some.inj hnext
      exact evaluates_atLeast hvs
    · exact .unmentioned rfl hx hm
  | atMost p n =>
    rcases values_cases h with ⟨vs, hvs, hnext⟩ | ⟨hx, hm, rfl⟩
    · obtain rfl := Option.some.inj hnext
      exact evaluates_atMost hvs
    · exact .unmentioned rfl hx hm
  | exactly p n =>
    rcases values_cases h with ⟨vs, hvs, hnext⟩ | ⟨hx, hm, rfl⟩
    · obtain rfl := Option.some.inj hnext
      exact evaluates_exactly hvs
    · exact .unmentioned rfl hx hm
  | selfOf p =>
    rcases values_cases h with ⟨vs, hvs, hnext⟩ | ⟨hx, hm, rfl⟩
    · obtain rfl := Option.some.inj hnext
      exact evaluates_selfOf hvs
    · exact .unmentioned rfl hx hm

/-- Closed-world evaluation follows the rules. -/
theorem Evaluates.of_closedWorld {finding : Finding}
    (h : k.reasoner.closedWorld e x = some finding) : k.Evaluates e x finding.statements := by
  obtain ⟨n, hn⟩ := Reasoner.closedWorld_eq_some_iff.mp h
  induction n generalizing e x finding with
  | zero => exact absurd hn (by simp [Reasoner.closedWorldWithin])
  | succ n ih =>
    have hfewer : ∀ e x finding, k.reasoner.closedWorldWithin n e x = some finding →
        k.Evaluates e x finding.statements := by
      intro e x finding hn
      exact ih (Reasoner.closedWorld_eq_some_iff.mpr ⟨n, hn⟩) hn
    exact evaluates_of_round hfewer hfewer hn

end Knowledge

/-! ## Histories without cycles -/

namespace Translator

/-- A call that counts no cycle is answered by closed-world evaluation, and keeps its findings. -/
theorem settled_translate {τ : Translator} (h : τ.memo.Settled k.reasoner ∅) {e : Expression}
    {x : Term} (hc : (τ.translate k.reasoner e x).2.memo.cycles ≤ τ.memo.cycles) :
    k.reasoner.closedWorld e x = some (τ.translate k.reasoner e x).1.toOption ∧
      (τ.translate k.reasoner e x).2.memo.Settled k.reasoner ∅ :=
  closedWorld_of_cycles_le k.reasoner.definedPairs e x τ.path (k.suffices_start x)
    List.mem_cons_self h hc

/-- So does a history that counts no cycle. -/
theorem settled_run {τ : Translator} (h : τ.memo.Settled k.reasoner ∅)
    (calls : List (Expression × Term))
    (hc : (τ.run k.reasoner calls).memo.cycles ≤ τ.memo.cycles) :
    (τ.run k.reasoner calls).memo.Settled k.reasoner ∅ := by
  induction calls generalizing τ with
  | nil => exact h
  | cons p calls ih =>
    -- the count cannot fall, so it is the same after the first call
    have hrest := ((τ.translate k.reasoner p.1 p.2).2.grows_run k.reasoner calls).cycles_le
    have hfirst := (τ.grows_run k.reasoner [p]).cycles_le
    exact ih (settled_translate h (Nat.le_trans hrest hc)).2 (Nat.le_trans hc hfirst)

end Translator

/-- Each call of a history without cycles is answered by closed-world evaluation. -/
theorem closedWorld_of_cycles_eq_zero {before after : List (Expression × Term)} {e : Expression}
    {x : Term}
    (h : (Translator.after k.reasoner (before ++ (e, x) :: after)).memo.cycles = 0) :
    k.reasoner.closedWorld e x =
      some ((Translator.after k.reasoner before).translate k.reasoner e x).1.toOption := by
  rw [Translator.after, Translator.run_append] at h
  change (((Translator.after k.reasoner before).translate k.reasoner e x).2.run k.reasoner
    after).memo.cycles = 0 at h
  have hcall : ((Translator.after k.reasoner before).translate k.reasoner e x).2.memo.cycles = 0 :=
    Nat.eq_zero_of_le_zero (h ▸ (Translator.grows_run _ k.reasoner after).cycles_le)
  have hbefore : (Translator.after k.reasoner before).memo.cycles = 0 :=
    Nat.eq_zero_of_le_zero (hcall ▸
      ((Translator.after k.reasoner before).grows_run k.reasoner [(e, x)]).cycles_le)
  have hsettled : (Translator.after k.reasoner before).memo.Settled k.reasoner ∅ :=
    Translator.settled_run Memo.Keeps.empty before (Nat.le_of_eq hbefore)
  exact (Translator.settled_translate hsettled (by rw [hcall, hbefore])).1

/-- Each call of a history without cycles is answered as plain closed-world evaluation answers it:
its verdict and its set of statements are those that the rules give, and the rules give no other. -/
theorem evaluates_iff_of_cycles_eq_zero (k : Knowledge) (calls : List (Expression × Term))
    (h : (Translator.after k.reasoner calls).memo.cycles = 0)
    {before after : List (Expression × Term)} {e : Expression} {x : Term}
    (hcalls : calls = before ++ (e, x) :: after) (finding : Option (Set Triple)) :
    k.Evaluates e x finding ↔ finding = Finding.statements
      ((Translator.after k.reasoner before).translate k.reasoner e x).1.toOption := by
  subst hcalls
  have hrules := Knowledge.Evaluates.of_closedWorld (closedWorld_of_cycles_eq_zero h)
  constructor
  · exact fun hfinding => hfinding.unique hrules
  · rintro rfl
    exact hrules

/-! ### An individual that is no member

In the knowledge where A is equivalent to B and C, and every C is a D, nothing but an edge is
asserted of z. That z is no C is found out by a first call; the second call asks for it again, and
for more that holds. -/

namespace ProvisionalVerdict

/-- Not in C, with some value of q, and in D or with one value of q at least. -/
def outsideC : Expression :=
  .conj [.compl (isA "C").1, .someOf (.iri ⟨"q"⟩) .top,
    .disj [(isA "D").1, .atLeast (.iri ⟨"q"⟩) 1]]

/-- The individual lies outside C, witnessed by its edge. -/
theorem evaluates_outsideC :
    (Translator.after knowledge.reasoner [isA "C", (outsideC, .iri ⟨"z"⟩)]).memo.cycles = 0 ∧
      ∀ finding, knowledge.Evaluates outsideC (.iri ⟨"z"⟩) finding ↔
        finding = some {⟨.iri ⟨"z"⟩, .iri ⟨"q"⟩, .iri ⟨"y"⟩⟩} := by
  have hcycles : (Translator.after knowledge.reasoner
      [isA "C", (outsideC, .iri ⟨"z"⟩)]).memo.cycles = 0 := by
    rw [reasoner_eq]
    decide +kernel
  have hfound : ((Translator.after knowledge.reasoner [isA "C"]).translate knowledge.reasoner
      outsideC (.iri ⟨"z"⟩)).1.toOption = some [⟨.iri ⟨"z"⟩, .iri ⟨"q"⟩, .iri ⟨"y"⟩⟩] := by
    rw [reasoner_eq]
    decide +kernel
  have hcalls : [isA "C", (outsideC, .iri ⟨"z"⟩)] =
      [isA "C"] ++ (outsideC, .iri ⟨"z"⟩) :: [] := rfl
  refine ⟨hcycles, ?_⟩
  intro finding
  rw [evaluates_iff_of_cycles_eq_zero knowledge _ hcycles hcalls finding, hfound,
    Finding.statements_eq (S := {⟨.iri ⟨"z"⟩, .iri ⟨"q"⟩, .iri ⟨"y"⟩⟩}) (by simp)]

end ProvisionalVerdict

end GraphConformance
