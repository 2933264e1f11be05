import GraphConformance.Mapping.Search
import Mathlib.Data.List.Nodup
import Mathlib.Data.Set.Function

/-!
# Assignments and the search for them

An assignment gives each template individual an accepted individual of its own (`IsAssignment`).
The search of `Mapping.assign` keeps answers, cuts branches that are too short and removes used
candidates from both sides of the chosen one. None of this changes its result: on a truthful inquiry
it is the plain search `firstAssignment` (`assign_eq`), which returns assignments only
(`isAssignment_of_firstAssignment`) and returns one whenever there is one
(`exists_firstAssignment`).

`find?` therefore finds a mapping exactly when the template individuals can be sent injectively to
accepted individuals (`isSome_find?_iff`), and what it finds is such a mapping (`IsMapping`,
`isMapping_of_find?`).
-/

set_option autoImplicit false

namespace GraphConformance

variable {accepts : Term → Term → Bool}

namespace Inquiry

/-- Every kept answer is that of the question. -/
def Truthful (accepts : Term → Term → Bool) (q : Inquiry) : Prop :=
  ∀ i t answer, q.answers.get? (i, t) = some answer → answer = accepts i t

theorem truthful_start (accepts : Term → Term → Bool) : start.Truthful accepts := by
  intro i t answer h
  exact absurd (h.symm.trans (Table.get?_empty _)) (by simp)

/-- Asking a truthful inquiry gives the true answer and leaves the inquiry truthful. -/
theorem ask_of_truthful {q : Inquiry} (hq : q.Truthful accepts) (i t : Term) :
    (q.ask accepts i t).1 = accepts i t ∧ (q.ask accepts i t).2.Truthful accepts := by
  unfold ask
  cases hg : q.answers.get? (i, t) with
  | some answer => exact ⟨hq i t answer hg, hq⟩
  | none =>
    refine ⟨rfl, ?_⟩
    intro j s answer h
    rw [Table.get?_insert] at h
    by_cases hk : (j, s) = (i, t)
    · rw [if_pos hk, Option.some.injEq] at h
      rw [Prod.mk.injEq] at hk
      rw [← h, hk.1, hk.2]
    · rw [if_neg hk] at h
      exact hq j s answer h

end Inquiry

namespace Mapping

/-! ## The plain search -/

/-- Distinct individuals for the template individuals, each accepted for its own. -/
structure IsAssignment (accepts : Term → Term → Bool) (individuals templates : List Term)
    (pairs : List (Term × Term)) : Prop where
  templates_eq : pairs.map Prod.snd = templates
  nodup : (pairs.map Prod.fst).Nodup
  mem : ∀ p ∈ pairs, p.1 ∈ individuals
  accepted : ∀ p ∈ pairs, accepts p.1 p.2 = true

/-- The first assignment in the order of the lists, found without memory and without pruning. -/
def firstAssignment (accepts : Term → Term → Bool) :
    List Term → List Term → Option (List (Term × Term))
  | [], _ => some []
  | template :: rest, individuals =>
    individuals.findSome? fun i =>
      if accepts i template then
        (firstAssignment accepts rest (individuals.erase i)).map ((i, template) :: ·)
      else none

theorem IsAssignment.length_le {individuals templates : List Term} {pairs : List (Term × Term)}
    (h : IsAssignment accepts individuals templates pairs) :
    templates.length ≤ individuals.length := by
  have hsub : pairs.map Prod.fst ⊆ individuals := by
    intro i hi
    obtain ⟨p, hp, rfl⟩ := List.mem_map.mp hi
    exact h.mem p hp
  calc templates.length = (pairs.map Prod.fst).length := by simp [← h.templates_eq]
    _ ≤ individuals.length := h.nodup.length_le_of_subset hsub

/-- Choosing an individual for a template individual leaves the others to the rest. -/
theorem isAssignment_cons_iff {individuals templates : List Term} {pairs : List (Term × Term)}
    {i t : Term} (hn : individuals.Nodup) :
    IsAssignment accepts individuals (t :: templates) ((i, t) :: pairs) ↔
      i ∈ individuals ∧ accepts i t = true ∧
        IsAssignment accepts (individuals.erase i) templates pairs := by
  constructor
  · intro h
    have hnodup := h.nodup
    rw [List.map_cons, List.nodup_cons] at hnodup
    refine ⟨h.mem _ List.mem_cons_self, h.accepted _ List.mem_cons_self, ?_⟩
    refine ⟨(List.cons.inj h.templates_eq).2, hnodup.2, ?_, ?_⟩
    -- no later pair uses the chosen individual
    · intro p hp
      rw [hn.mem_erase_iff]
      refine ⟨?_, h.mem p (List.mem_cons_of_mem _ hp)⟩
      rintro rfl
      exact hnodup.1 (List.mem_map.mpr ⟨p, hp, rfl⟩)
    · exact fun p hp => h.accepted p (List.mem_cons_of_mem _ hp)
  · rintro ⟨hi, ha, h⟩
    refine ⟨by rw [List.map_cons, h.templates_eq], ?_, ?_, ?_⟩
    · rw [List.map_cons, List.nodup_cons]
      refine ⟨?_, h.nodup⟩
      intro hm
      obtain ⟨p, hp, hpi⟩ := List.mem_map.mp hm
      have hmem := h.mem p hp
      rw [hn.mem_erase_iff] at hmem
      exact hmem.1 hpi
    · intro p hp
      rcases List.mem_cons.mp hp with rfl | hp
      · exact hi
      · exact List.mem_of_mem_erase (h.mem p hp)
    · intro p hp
      rcases List.mem_cons.mp hp with rfl | hp
      · exact ha
      · exact h.accepted p hp

/-- The plain search returns assignments only. -/
theorem isAssignment_of_firstAssignment {templates individuals : List Term}
    {pairs : List (Term × Term)} (hn : individuals.Nodup)
    (h : firstAssignment accepts templates individuals = some pairs) :
    IsAssignment accepts individuals templates pairs := by
  induction templates generalizing individuals pairs with
  | nil =>
    simp only [firstAssignment, Option.some.injEq] at h
    subst h
    exact ⟨rfl, List.nodup_nil, by simp, by simp⟩
  | cons t rest ih =>
    obtain ⟨i, hi, hsome⟩ := List.exists_of_findSome?_eq_some h
    by_cases ha : accepts i t = true
    · rw [if_pos ha] at hsome
      obtain ⟨more, hmore, rfl⟩ := Option.map_eq_some_iff.mp hsome
      exact (isAssignment_cons_iff hn).mpr ⟨hi, ha, ih (hn.erase i) hmore⟩
    · rw [if_neg ha] at hsome
      exact absurd hsome (by simp)

/-- The plain search returns an assignment whenever there is one. -/
theorem exists_firstAssignment {templates individuals : List Term} {pairs : List (Term × Term)}
    (hn : individuals.Nodup) (h : IsAssignment accepts individuals templates pairs) :
    ∃ found, firstAssignment accepts templates individuals = some found := by
  rw [← Option.isSome_iff_exists]
  induction templates generalizing individuals pairs with
  | nil => rfl
  | cons t rest ih =>
    cases pairs with
    | nil => exact absurd h.templates_eq (by simp)
    | cons p pairs =>
      obtain ⟨i, s⟩ := p
      obtain rfl : s = t := (List.cons.inj h.templates_eq).1
      obtain ⟨hi, ha, hrest⟩ := (isAssignment_cons_iff hn).mp h
      rw [firstAssignment, List.findSome?_isSome_iff]
      refine ⟨i, hi, ?_⟩
      rw [if_pos ha, Option.isSome_map]
      exact ih (hn.erase i) hrest

/-! ## The search with memory -/

/-- Trying the candidates after some others is the plain search among them, when assigning the rest
is. -/
theorem assignFirst_eq {next : List Term → Inquiry → Assignment}
    {plain : List Term → Option (List (Term × Term))}
    (hnext : ∀ left q, left.Nodup → q.Truthful accepts →
      (next left q).1 = plain left ∧ (next left q).2.Truthful accepts)
    (template : Term) (before after : List Term) (q : Inquiry) (hn : (before ++ after).Nodup)
    (hq : q.Truthful accepts) :
    (assignFirst accepts next template before after q).1 =
        (after.findSome? fun i =>
          if accepts i template then
            (plain ((before ++ after).erase i)).map ((i, template) :: ·)
          else none) ∧
      (assignFirst accepts next template before after q).2.Truthful accepts := by
  induction after generalizing before q with
  | nil => exact ⟨rfl, hq⟩
  | cons i after ih =>
    -- the candidates are the same, with the first one counted among those tried
    have hn' : (before ++ [i] ++ after).Nodup := by simpa using hn
    have hnot : i ∉ before := fun hm => by
      have := (List.nodup_append.mp hn).2.2 i hm i List.mem_cons_self
      exact this rfl
    have herase : (before ++ i :: after).erase i = before ++ after := by
      rw [List.erase_append_right _ hnot, List.erase_cons_head]
    obtain ⟨hask, hq'⟩ := Inquiry.ask_of_truthful hq i template
    rw [assignFirst, List.findSome?_cons]
    generalize Inquiry.ask q accepts i template = r at hask hq' ⊢
    obtain ⟨answer, q'⟩ := r
    simp only at hask hq'
    subst hask
    cases ha : accepts i template with
    | false =>
      have := ih (before ++ [i]) q' hn' hq'
      simpa [ha] using this
    | true =>
      have hleft : (before ++ after).Nodup := herase ▸ hn.erase i
      obtain ⟨hval, hq''⟩ := hnext (before ++ after) q' hleft hq'
      dsimp only
      generalize next (before ++ after) q' = s at hval hq'' ⊢
      obtain ⟨found, q''⟩ := s
      simp only at hval hq''
      subst hval
      cases hp : plain (before ++ after) with
      | some pairs => simpa [ha, herase, hp] using hq''
      | none =>
        have := ih (before ++ [i]) q'' hn' hq''
        simpa [ha, herase, hp] using this

/-- On a truthful inquiry the search is the plain search: the pruning cuts off only what holds no
assignment. -/
theorem assign_eq (templates individuals : List Term) (q : Inquiry) (hn : individuals.Nodup)
    (hq : q.Truthful accepts) :
    (assign accepts templates individuals q).1 = firstAssignment accepts templates individuals ∧
      (assign accepts templates individuals q).2.Truthful accepts := by
  induction templates generalizing individuals q with
  | nil => exact ⟨rfl, hq⟩
  | cons t rest ih =>
    rw [assign]
    by_cases hlen : individuals.length < rest.length + 1
    · rw [if_pos hlen]
      refine ⟨?_, hq⟩
      -- an assignment would not be longer than the list of candidates
      symm
      rw [Option.eq_none_iff_forall_not_mem]
      intro pairs hp
      have := (isAssignment_of_firstAssignment hn hp).length_le
      rw [List.length_cons] at this
      omega
    · rw [if_neg hlen]
      exact assignFirst_eq (fun left q hl => ih left q hl) t [] individuals q hn hq

/-! ## Mappings -/

theorem partner_eq (individual : Term) (templates : List Term) (q : Inquiry)
    (hq : q.Truthful accepts) :
    (partner accepts individual templates q).1 = templates.find? (accepts individual) ∧
      (partner accepts individual templates q).2.Truthful accepts := by
  induction templates generalizing q with
  | nil => exact ⟨rfl, hq⟩
  | cons t rest ih =>
    obtain ⟨hask, hq'⟩ := Inquiry.ask_of_truthful hq individual t
    rw [partner, List.find?_cons]
    generalize q.ask accepts individual t = r at hask hq' ⊢
    obtain ⟨answer, q'⟩ := r
    simp only at hask hq'
    subst hask
    cases accepts individual t with
    | false => exact ih q' hq'
    | true => exact ⟨rfl, hq'⟩

/-- The pairing of an individual next to an assignment. -/
def pairing (accepts : Term → Term → Bool) (assigned : List (Term × Term)) (templates : List Term)
    (individual : Term) : Pairing :=
  match assigned.lookup individual with
  | some template => .required template
  | none => .optional (templates.find? (accepts individual))

/-- Completing an assignment gives each individual its pairing and keeps the other entries. -/
theorem get?_complete (assigned : List (Term × Term)) (templates individuals : List Term)
    (m : Mapping) (q : Inquiry) (hq : q.Truthful accepts) (x : Term) :
    (complete accepts assigned templates individuals m q).1.get? x =
      if x ∈ individuals then some (pairing accepts assigned templates x) else m.get? x := by
  induction individuals generalizing m q with
  | nil => rfl
  | cons i rest ih =>
    -- whichever way `i` is paired, its entry is the one that `pairing` names
    have key : ∀ (q' : Inquiry), q'.Truthful accepts →
        (complete accepts assigned templates rest
            (m.insert i (pairing accepts assigned templates i)) q').1.get? x =
          if x ∈ i :: rest then some (pairing accepts assigned templates x) else m.get? x := by
      intro q' hq'
      rw [ih _ q' hq', Table.get?_insert]
      by_cases hx : x = i
      · subst hx
        simp
      · simp [hx]
    rw [complete]
    cases hl : assigned.lookup i with
    | some template =>
      have hp : pairing accepts assigned templates i = .required template := by rw [pairing, hl]
      have := key q hq
      rw [hp] at this
      exact this
    | none =>
      obtain ⟨hpartner, hq'⟩ := partner_eq i templates q hq
      have hp : pairing accepts assigned templates i =
          .optional (partner accepts i templates q).1 := by rw [pairing, hl, hpartner]
      have := key _ hq'
      rw [hp] at this
      exact this

/-- What the search finds comes from the first assignment of the distinct individuals. -/
theorem find?_eq (accepts : Term → Term → Bool) (individuals templates : List Term) :
    (find? accepts individuals templates = none ∧
        firstAssignment accepts (Distinct.dedup templates) (Distinct.dedup individuals) = none) ∨
      ∃ m pairs, find? accepts individuals templates = some m ∧
        firstAssignment accepts (Distinct.dedup templates) (Distinct.dedup individuals) =
          some pairs ∧
        ∀ x, m.get? x =
          if x ∈ individuals then some (pairing accepts pairs (Distinct.dedup templates) x)
          else none := by
  obtain ⟨hassign, hq⟩ := assign_eq (Distinct.dedup templates) (Distinct.dedup individuals) .start
    (Distinct.nodup_dedup individuals) (Inquiry.truthful_start accepts)
  rw [find?, search]
  generalize assign accepts (Distinct.dedup templates) (Distinct.dedup individuals) .start = r
    at hassign hq ⊢
  obtain ⟨found, q⟩ := r
  simp only at hassign hq
  subst hassign
  cases hf : firstAssignment accepts (Distinct.dedup templates) (Distinct.dedup individuals) with
  | none => exact Or.inl ⟨rfl, rfl⟩
  | some pairs =>
    refine Or.inr ⟨_, pairs, rfl, rfl, ?_⟩
    intro x
    have := get?_complete pairs (Distinct.dedup templates) (Distinct.dedup individuals) ∅ q hq x
    simp only [Distinct.mem_dedup] at this
    exact this

/-- A mapping that gives each template individual exactly one required individual, pairs accepted
individuals only, and stays within the given lists. -/
structure IsMapping (accepts : Term → Term → Bool) (individuals templates : List Term)
    (m : Mapping) : Prop where
  required : ∀ t ∈ templates, ∃! i, m.get? i = some (.required t)
  mem_individuals : ∀ i, (m.get? i).isSome ↔ i ∈ individuals
  mem_templates : ∀ i t, m.template? i = some t → t ∈ templates
  accepted : ∀ i t, m.template? i = some t → accepts i t = true

theorem mem_of_lookup {pairs : List (Term × Term)} {i t : Term} (h : pairs.lookup i = some t) :
    (i, t) ∈ pairs := by
  obtain ⟨before, after, rfl, -⟩ := List.lookup_eq_some_iff.mp h
  exact List.mem_append_right before List.mem_cons_self

theorem lookup_of_mem {pairs : List (Term × Term)} {i t : Term}
    (hn : (pairs.map Prod.fst).Nodup) (h : (i, t) ∈ pairs) : pairs.lookup i = some t := by
  obtain ⟨before, after, rfl⟩ := List.append_of_mem h
  refine List.lookup_eq_some_iff.mpr ⟨before, after, rfl, ?_⟩
  intro p hp
  rw [List.map_append, List.nodup_append] at hn
  rw [bne_iff_ne]
  exact (hn.2.2 p.1 (List.mem_map_of_mem hp) i List.mem_cons_self).symm

/-- The required individuals are those of the assignment. -/
theorem pairing_eq_required_iff {assigned : List (Term × Term)} {templates : List Term}
    {i t : Term} (hn : (assigned.map Prod.fst).Nodup) :
    pairing accepts assigned templates i = .required t ↔ (i, t) ∈ assigned := by
  rw [pairing]
  constructor
  · intro h
    split at h
    · rename_i s hs
      rw [← Pairing.required.inj h]
      exact mem_of_lookup hs
    · exact absurd h (by simp)
  · intro h
    rw [lookup_of_mem hn h]

/-- A partner is a template individual for which the individual is accepted. -/
theorem of_template?_pairing {individuals templates : List Term} {assigned : List (Term × Term)}
    {i t : Term} (h : IsAssignment accepts individuals templates assigned)
    (hp : (pairing accepts assigned templates i).template? = some t) :
    t ∈ templates ∧ accepts i t = true := by
  rw [pairing] at hp
  split at hp
  · rename_i s hs
    obtain rfl : s = t := Option.some.inj hp
    have hmem := mem_of_lookup hs
    exact ⟨h.templates_eq ▸ List.mem_map.mpr ⟨_, hmem, rfl⟩, h.accepted _ hmem⟩
  · have hfind : templates.find? (accepts i) = some t := hp
    exact ⟨List.mem_of_find?_eq_some hfind, List.find?_some hfind⟩

/-- What the search finds is a mapping. -/
theorem isMapping_of_find? {individuals templates : List Term} {m : Mapping}
    (h : find? accepts individuals templates = some m) :
    IsMapping accepts individuals templates m := by
  obtain ⟨hnone, -⟩ | ⟨m', pairs, hm, hpairs, hget⟩ := find?_eq accepts individuals templates
  · exact absurd (h.symm.trans hnone) (by simp)
  obtain rfl : m' = m := Option.some.inj (hm.symm.trans h)
  have hassign := isAssignment_of_firstAssignment (Distinct.nodup_dedup individuals) hpairs
  have hpair : ∀ i t, m'.template? i = some t → t ∈ templates ∧ accepts i t = true := by
    intro i t he
    rw [template?, hget i] at he
    split at he
    · have := of_template?_pairing hassign he
      rwa [Distinct.mem_dedup] at this
    · exact absurd he (by simp)
  refine ⟨?_, ?_, fun i t he => (hpair i t he).1, fun i t he => (hpair i t he).2⟩
  · intro t ht
    have hreq : ∀ i, m'.get? i = some (.required t) ↔ (i, t) ∈ pairs := by
      intro i
      rw [hget i]
      by_cases hi : i ∈ individuals
      · rw [if_pos hi, Option.some.injEq, pairing_eq_required_iff hassign.nodup]
      · rw [if_neg hi]
        refine ⟨fun he => absurd he (by simp), ?_⟩
        intro hp
        exact absurd (Distinct.mem_dedup.mp (hassign.mem _ hp)) hi
    have ht' : t ∈ pairs.map Prod.snd := hassign.templates_eq ▸ Distinct.mem_dedup.mpr ht
    have hnodup : (pairs.map Prod.snd).Nodup :=
      hassign.templates_eq ▸ Distinct.nodup_dedup templates
    obtain ⟨⟨i, s⟩, hp, rfl⟩ := List.mem_map.mp ht'
    refine ⟨i, (hreq i).mpr hp, ?_⟩
    intro j hj
    have := List.inj_on_of_nodup_map hnodup ((hreq j).mp hj) hp rfl
    exact congrArg Prod.fst this
  · intro i
    rw [hget i]
    by_cases hi : i ∈ individuals <;> simp [hi]

/-! ## Existence -/

/-- Assignments of distinct individuals are the injective choices of accepted individuals. -/
theorem exists_isAssignment_iff (individuals : List Term) {templates : List Term}
    (ht : templates.Nodup) :
    (∃ pairs, IsAssignment accepts individuals templates pairs) ↔
      ∃ f : Term → Term, Set.InjOn f {t | t ∈ templates} ∧
        ∀ t ∈ templates, f t ∈ individuals ∧ accepts (f t) t = true := by
  constructor
  · rintro ⟨pairs, h⟩
    have hnodup : (pairs.map Prod.snd).Nodup := h.templates_eq ▸ ht
    -- read a choice off the pairs
    have hex : ∀ t, ∃ i, t ∈ templates → (i, t) ∈ pairs := by
      intro t
      by_cases hm : t ∈ templates
      · rw [← h.templates_eq] at hm
        obtain ⟨⟨i, s⟩, hp, rfl⟩ := List.mem_map.mp hm
        exact ⟨i, fun _ => hp⟩
      · exact ⟨t, fun hm' => absurd hm' hm⟩
    choose f hf using hex
    refine ⟨f, ?_, fun t hm => ⟨h.mem _ (hf t hm), h.accepted _ (hf t hm)⟩⟩
    intro t hm s hs heq
    have := List.inj_on_of_nodup_map h.nodup (hf t hm) (hf s hs) heq
    exact congrArg Prod.snd this
  · rintro ⟨f, hinj, hf⟩
    refine ⟨templates.map fun t => (f t, t), ?_, ?_, ?_, ?_⟩
    · rw [List.map_map]
      exact List.map_id'' (fun _ => rfl) templates
    · rw [List.map_map]
      exact ht.map_on fun t hm s hs heq => hinj hm hs heq
    · intro p hp
      obtain ⟨t, hm, rfl⟩ := List.mem_map.mp hp
      exact (hf t hm).1
    · intro p hp
      obtain ⟨t, hm, rfl⟩ := List.mem_map.mp hp
      exact (hf t hm).2

theorem isSome_find?_iff_exists (individuals templates : List Term) :
    (find? accepts individuals templates).isSome ↔
      ∃ f : Term → Term, Set.InjOn f {t | t ∈ templates} ∧
        ∀ t ∈ templates, f t ∈ individuals ∧ accepts (f t) t = true := by
  have hiff : (∃ pairs, IsAssignment accepts (Distinct.dedup individuals)
      (Distinct.dedup templates) pairs) ↔ _ :=
    exists_isAssignment_iff (Distinct.dedup individuals) (Distinct.nodup_dedup templates)
  simp only [Distinct.mem_dedup] at hiff
  rw [← hiff]
  have hn := Distinct.nodup_dedup individuals
  obtain ⟨hnone, hfirst⟩ | ⟨m, pairs, hm, hpairs, -⟩ := find?_eq accepts individuals templates
  · rw [hnone]
    refine ⟨fun h => absurd h (by simp), ?_⟩
    rintro ⟨pairs, h⟩
    obtain ⟨found, hfound⟩ := exists_firstAssignment hn h
    exact absurd (hfirst.symm.trans hfound) (by simp)
  · rw [hm]
    exact ⟨fun _ => ⟨pairs, isAssignment_of_firstAssignment hn hpairs⟩, fun _ => rfl⟩

/-- The search finds a mapping exactly when the template individuals can be sent injectively to
accepted individuals. Whether it does depends on the members of the two lists alone, not on their
order or on repetitions. -/
theorem isSome_find?_iff (accepts : Term → Term → Bool) (individuals templates : List Term) :
    ((find? accepts individuals templates).isSome ↔
      ∃ f : Term → Term, Set.InjOn f {t | t ∈ templates} ∧
        ∀ t ∈ templates, f t ∈ individuals ∧ accepts (f t) t = true) ∧
    ∀ individuals' templates' : List Term,
      (∀ x, x ∈ individuals' ↔ x ∈ individuals) → (∀ t, t ∈ templates' ↔ t ∈ templates) →
        (find? accepts individuals' templates').isSome =
          (find? accepts individuals templates).isSome := by
  refine ⟨isSome_find?_iff_exists individuals templates, ?_⟩
  intro individuals' templates' hi ht
  rw [Bool.eq_iff_iff, isSome_find?_iff_exists, isSome_find?_iff_exists]
  simp only [hi, ht]

/-- Node 0 is accepted for both template nodes and node 1 for node 2 only, so the first choice has
to be taken back; lists in another order and with repetitions give the same answer. -/
theorem isSome_find?_choice_taken_back :
    (find? (fun i t => i = .blank ⟨0, none⟩ || t = .blank ⟨2, none⟩)
        [.blank ⟨0, none⟩, .blank ⟨1, none⟩] [.blank ⟨2, none⟩, .blank ⟨3, none⟩]).isSome = true ∧
      (find? (fun i t => i = .blank ⟨0, none⟩ || t = .blank ⟨2, none⟩)
        [.blank ⟨1, none⟩, .blank ⟨0, none⟩, .blank ⟨1, none⟩]
        [.blank ⟨3, none⟩, .blank ⟨2, none⟩, .blank ⟨3, none⟩]).isSome = true := by
  have h := isSome_find?_iff (fun i t => i = .blank ⟨0, none⟩ || t = .blank ⟨2, none⟩)
    [.blank ⟨0, none⟩, .blank ⟨1, none⟩] [.blank ⟨2, none⟩, .blank ⟨3, none⟩]
  have hsome : (find? (fun i t => i = .blank ⟨0, none⟩ || t = .blank ⟨2, none⟩)
      [.blank ⟨0, none⟩, .blank ⟨1, none⟩] [.blank ⟨2, none⟩, .blank ⟨3, none⟩]).isSome = true := by
    decide
  refine ⟨hsome, ?_⟩
  rw [h.2 _ _ (by simp [or_comm]) (by simp [or_comm])]
  exact hsome

end Mapping

end GraphConformance
