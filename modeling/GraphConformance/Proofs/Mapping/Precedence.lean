import GraphConformance.Proofs.Mapping.Assignment
import GraphConformance.Proofs.Mapping.Pairs
import Mathlib.Data.List.Lex

/-!
# Which mapping is found

Among all assignments the search finds the one that comes first when the positions of the chosen
individuals are compared, template individual by template individual (`IsFirstAssignment`,
`isFirstAssignment_of_firstAssignment`). The mapping lists each individual once, in order of first
occurrence (`keys_of_find?`); those that the assignment leaves over have the first template
individual that they are accepted for.

No question is asked twice: what was asked are the keys of the kept answers (`Inquiry.Logged`). And
no other question matters: with other answers to questions that were not asked, the search is the
same (`within_searching`).
-/

set_option autoImplicit false

namespace GraphConformance

variable {accepts : Term → Term → Bool}

/-! ## Order of first occurrence -/

namespace Distinct

variable {α : Type} [DecidableEq α]

/-- A longer list keeps the order of first occurrence. -/
theorem pairwise_idxOf_append {xs zs : List α} (ys : List α)
    (h : xs.Pairwise fun a b => zs.idxOf a < zs.idxOf b) (hsub : xs ⊆ zs) :
    xs.Pairwise fun a b => (zs ++ ys).idxOf a < (zs ++ ys).idxOf b := by
  refine h.imp_of_mem ?_
  intro a b ha hb hlt
  rwa [List.idxOf_append_of_mem (hsub ha), List.idxOf_append_of_mem (hsub hb)]

/-- What is left of a list comes in the order in which it first occurs there, when the list starts
with what was kept before. -/
theorem pairwise_idxOf_union {xs zs : List α} (ys : List α)
    (h : xs.Pairwise fun a b => zs.idxOf a < zs.idxOf b) (hsub : ∀ x, x ∈ xs ↔ x ∈ zs) :
    (union xs ys).Pairwise fun a b => (zs ++ ys).idxOf a < (zs ++ ys).idxOf b := by
  -- what is kept, xs, grows along with what was seen, zs
  induction ys generalizing xs zs with
  | nil => simpa using h
  | cons y ys ih =>
    rw [union_cons, show zs ++ y :: ys = (zs ++ [y]) ++ ys by simp]
    apply ih
    · rw [insertLast]
      split
      · exact pairwise_idxOf_append [y] h fun x hx => (hsub x).mp hx
      · rename_i hy
        have hyzs : y ∉ zs := fun hm => hy ((hsub y).mpr hm)
        -- the new element comes after all others
        have hlast : (zs ++ [y]).idxOf y = zs.length := by
          rw [List.idxOf_append_of_notMem hyzs, List.idxOf_cons_self, Nat.add_zero]
        refine List.pairwise_append.mpr
          ⟨pairwise_idxOf_append [y] h fun x hx => (hsub x).mp hx, List.pairwise_singleton _ _, ?_⟩
        intro a ha b hb
        rw [List.mem_singleton.mp hb, hlast, List.idxOf_append_of_mem ((hsub a).mp ha)]
        exact List.idxOf_lt_length_of_mem ((hsub a).mp ha)
    · intro x
      rw [mem_insertLast, hsub, List.mem_append, List.mem_singleton]

theorem pairwise_idxOf_dedup (ys : List α) :
    (dedup ys).Pairwise fun a b => ys.idxOf a < ys.idxOf b := by
  have h : (union [] ys).Pairwise fun a b => ([] ++ ys).idxOf a < ([] ++ ys).idxOf b :=
    pairwise_idxOf_union ys List.Pairwise.nil (by simp)
  rwa [List.nil_append] at h

/-- Looking for the first element with a property, repetitions do not count. -/
theorem find?_union (p : α → Bool) (xs ys : List α) :
    (union xs ys).find? p = (xs ++ ys).find? p := by
  induction ys generalizing xs with
  | nil => simp
  | cons y ys ih =>
    rw [union_cons, ih]
    rw [insertLast]
    split
    · rename_i hy
      simp only [List.find?_append, List.find?_cons]
      cases hx : xs.find? p with
      | some x => rfl
      | none =>
        -- the repeated element does not have the property
        have := List.find?_eq_none.mp hx y hy
        simp [this]
    · simp

theorem find?_dedup (p : α → Bool) (ys : List α) : (dedup ys).find? p = ys.find? p :=
  find?_union p [] ys

end Distinct

namespace Mapping

/-! ## The first assignment -/

/-- The positions of the chosen individuals, in order of the template individuals. -/
def positions (individuals : List Term) (pairs : List (Term × Term)) : List Nat :=
  pairs.map fun p => individuals.idxOf p.1

/-- An assignment before which no other one comes: where another one first differs, it chooses a
later individual. -/
structure IsFirstAssignment (accepts : Term → Term → Bool) (individuals templates : List Term)
    (pairs : List (Term × Term)) : Prop extends IsAssignment accepts individuals templates pairs
    where
  first : ∀ other, IsAssignment accepts individuals templates other →
    other = pairs ∨ List.Lex (· < ·) (positions individuals pairs) (positions individuals other)

/-- The plain search tries candidates in their order, so what it returns comes first in every order
in which the candidates stand. -/
theorem eq_or_lex_of_firstAssignment {rank : Term → Nat} {templates individuals : List Term}
    {pairs other : List (Term × Term)}
    (hrank : individuals.Pairwise fun a b => rank a < rank b)
    (h : firstAssignment accepts templates individuals = some pairs)
    (hother : IsAssignment accepts individuals templates other) :
    other = pairs ∨
      List.Lex (· < ·) (pairs.map fun p => rank p.1) (other.map fun p => rank p.1) := by
  have hn : individuals.Nodup := hrank.imp fun hlt heq => by
    rw [heq] at hlt
    exact Nat.lt_irrefl _ hlt
  induction templates generalizing individuals pairs other with
  | nil =>
    rw [firstAssignment, Option.some.injEq] at h
    left
    rw [← h]
    exact List.map_eq_nil_iff.mp hother.templates_eq
  | cons t rest ih =>
    cases other with
    | nil => exact absurd hother.templates_eq (by simp)
    | cons p others =>
      obtain ⟨j, s⟩ := p
      obtain rfl : s = t := (List.cons.inj hother.templates_eq).1
      obtain ⟨hj, haccepts, hothers⟩ := (isAssignment_cons_iff hn).mp hother
      rw [firstAssignment] at h
      obtain ⟨before, i, after, hsplit, hi, hbefore⟩ := List.findSome?_eq_some_iff.mp h
      split at hi
      · obtain ⟨more, hmore, rfl⟩ := Option.map_eq_some_iff.mp hi
        -- the same first choice leaves the comparison to the rest
        by_cases hij : j = i
        · subst hij
          rcases ih (hrank.sublist List.erase_sublist) hmore hothers (hn.erase j) with rfl | hlex
          · exact Or.inl rfl
          · exact Or.inr (List.Lex.cons hlex)
        · -- the candidates before `i` leave nothing to the rest, but `j` does
          have hnot : j ∉ before := by
            intro hm
            obtain ⟨found, hfound⟩ := exists_firstAssignment (hn.erase j) hothers
            have hnone := hbefore j hm
            rw [if_pos haccepts, hfound] at hnone
            exact absurd hnone (by simp)
          rw [hsplit, List.mem_append, List.mem_cons] at hj
          rw [hsplit, List.pairwise_append, List.pairwise_cons] at hrank
          rcases hj with hj | hj | hj
          · exact absurd hj hnot
          · exact absurd hj hij
          · exact Or.inr (List.Lex.rel (hrank.2.1.1 j hj))
      · exact absurd hi (by simp)

/-- Assignments use the members of the list of individuals only. -/
theorem isAssignment_dedup_iff {individuals templates : List Term} {pairs : List (Term × Term)} :
    IsAssignment accepts (Distinct.dedup individuals) templates pairs ↔
      IsAssignment accepts individuals templates pairs :=
  ⟨fun h => ⟨h.templates_eq, h.nodup, fun p hp => Distinct.mem_dedup.mp (h.mem p hp), h.accepted⟩,
    fun h => ⟨h.templates_eq, h.nodup, fun p hp => Distinct.mem_dedup.mpr (h.mem p hp),
      h.accepted⟩⟩

/-- Among the distinct individuals, the plain search finds the first assignment. -/
theorem isFirstAssignment_of_firstAssignment {individuals templates : List Term}
    {pairs : List (Term × Term)}
    (h : firstAssignment accepts templates (Distinct.dedup individuals) = some pairs) :
    IsFirstAssignment accepts individuals templates pairs := by
  refine ⟨isAssignment_dedup_iff.mp (isAssignment_of_firstAssignment
    (Distinct.nodup_dedup individuals) h), ?_⟩
  intro other hother
  exact eq_or_lex_of_firstAssignment (Distinct.pairwise_idxOf_dedup individuals) h
    (isAssignment_dedup_iff.mpr hother)

end Mapping

/-! ## Questions -/

/-- A computation that may ask about acceptance, with an inquiry at hand. -/
def Asking (α : Type) : Type := (Term → Term → Bool) → Inquiry → α × Inquiry

instance : Monad Asking where
  pure a := fun _ q => (a, q)
  bind f g := fun accepts q => g (f accepts q).1 accepts (f accepts q).2

namespace Inquiry

/-- What was asked are the keys of the kept answers, in order. -/
def Logged (q : Inquiry) : Prop := q.asked = q.answers.keys

theorem Logged.nodup {q : Inquiry} (h : q.Logged) : q.asked.Nodup :=
  h ▸ q.answers.keys_nodup

theorem ask_of_some {q : Inquiry} {i t : Term} {answer : Bool}
    (h : q.answers.get? (i, t) = some answer) : q.ask accepts i t = (answer, q) := by
  rw [ask, h]

theorem ask_of_none {q : Inquiry} {i t : Term} (h : q.answers.get? (i, t) = none) :
    q.ask accepts i t =
      (accepts i t, ⟨q.answers.insert (i, t) (accepts i t), q.asked ++ [(i, t)]⟩) := by
  rw [ask, h]

end Inquiry

namespace Asking

variable {α β : Type} {P : Term → Term → Prop}

theorem bind_apply (f : Asking α) (g : α → Asking β) (accepts : Term → Term → Bool)
    (q : Inquiry) : (f >>= g) accepts q = g (f accepts q).1 accepts (f accepts q).2 := rfl

/-- Ask about a pair. -/
def ask (individual template : Term) : Asking Bool :=
  fun accepts q => q.ask accepts individual template

/-- The computation learns about acceptance from the questions in its inquiry alone, and they are
about some pairs only. -/
structure Within (P : Term → Term → Prop) (f : Asking α) : Prop where
  asked_grows : ∀ accepts q, q.asked <+: (f accepts q).2.asked
  logged : ∀ accepts q, q.Logged → (f accepts q).2.Logged
  mem : ∀ accepts q p, p ∈ (f accepts q).2.asked → p ∈ q.asked ∨ P p.1 p.2
  congr : ∀ accepts accepts' q, (∀ p ∈ (f accepts q).2.asked, accepts' p.1 p.2 = accepts p.1 p.2) →
    f accepts' q = f accepts q

theorem within_pure (a : α) : Within P (pure a) where
  asked_grows _ q := List.prefix_refl q.asked
  logged _ _ h := h
  mem _ _ _ h := Or.inl h
  congr _ _ _ _ := rfl

theorem within_bind {f : Asking α} {g : α → Asking β} (hf : Within P f)
    (hg : ∀ a, Within P (g a)) : Within P (f >>= g) where
  asked_grows accepts q := (hf.asked_grows accepts q).trans ((hg _).asked_grows accepts _)
  logged accepts q h := (hg _).logged accepts _ (hf.logged accepts q h)
  mem accepts q p h := by
    rcases (hg _).mem accepts _ p h with h | h
    · exact hf.mem accepts q p h
    · exact Or.inr h
  congr accepts accepts' q h := by
    have hgrown := (hg (f accepts q).1).asked_grows accepts (f accepts q).2
    have hfirst := hf.congr accepts accepts' q fun p hp => h p (hgrown.subset hp)
    show g (f accepts' q).1 accepts' (f accepts' q).2 = g (f accepts q).1 accepts (f accepts q).2
    rw [hfirst]
    exact (hg _).congr accepts accepts' _ h

theorem within_ask {i t : Term} (h : P i t) : Within P (ask i t) where
  asked_grows accepts q := by
    rw [ask]
    cases hanswer : q.answers.get? (i, t) with
    | some answer => simp only [Inquiry.ask_of_some hanswer, List.prefix_refl]
    | none =>
      rw [Inquiry.ask_of_none hanswer]
      exact List.prefix_append _ _
  logged accepts q hq := by
    rw [ask]
    cases hanswer : q.answers.get? (i, t) with
    | some answer => rwa [Inquiry.ask_of_some hanswer]
    | none =>
      rw [Inquiry.ask_of_none hanswer, Inquiry.Logged, Table.keys_insert_of_get?_eq_none hanswer,
        ← hq]
  mem accepts q p hp := by
    rw [ask] at hp
    cases hanswer : q.answers.get? (i, t) with
    | some answer =>
      rw [Inquiry.ask_of_some hanswer] at hp
      exact Or.inl hp
    | none =>
      rw [Inquiry.ask_of_none hanswer] at hp
      rcases List.mem_append.mp hp with hp | hp
      · exact Or.inl hp
      · rw [List.mem_singleton.mp hp]
        exact Or.inr h
  congr accepts accepts' q hq := by
    rw [ask] at hq
    rw [ask, ask]
    cases hanswer : q.answers.get? (i, t) with
    | some answer => rw [Inquiry.ask_of_some hanswer, Inquiry.ask_of_some hanswer]
    | none =>
      -- the new question is among those asked
      rw [Inquiry.ask_of_none hanswer] at hq
      have hsame := hq (i, t) (List.mem_append_right _ List.mem_cons_self)
      rw [Inquiry.ask_of_none hanswer, Inquiry.ask_of_none hanswer, hsame]

end Asking

namespace Mapping

open Asking

variable {P : Term → Term → Prop}

/-- Ask about a candidate, and skip it when it is refused or the others find no place. -/
theorem assignFirst_cons (next : List Term → Asking (Option (List (Term × Term))))
    (template i : Term) (before after : List Term) :
    (fun accepts => assignFirst accepts (next · accepts) template before (i :: after)) =
      ((do
        let skip : Asking (Option (List (Term × Term))) :=
          fun accepts => assignFirst accepts (next · accepts) template (before ++ [i]) after
        if ← ask i template then
          match ← next (before ++ after) with
          | some pairs => return some ((i, template) :: pairs)
          | none => skip
        else skip) : Asking (Option (List (Term × Term)))) := by
  funext accepts q
  rw [bind_apply, ask, assignFirst]
  cases q.ask accepts i template with
  | mk answer q' =>
    cases answer with
    | false => rfl
    | true =>
      show _ = (next (before ++ after) >>= _) accepts q'
      rw [bind_apply]
      dsimp only
      cases next (before ++ after) accepts q' with
      | mk found q'' => cases found <;> rfl

theorem within_assignFirst (next : List Term → Asking (Option (List (Term × Term))))
    {template : Term} {before after : List Term}
    (hnext : ∀ left, left ⊆ before ++ after → Within P (next left))
    (h : ∀ i ∈ after, P i template) :
    Within P fun accepts => assignFirst accepts (next · accepts) template before after := by
  induction after generalizing before with
  | nil => exact within_pure none
  | cons i after ih =>
    have hskip : Within P fun accepts =>
        assignFirst accepts (next · accepts) template (before ++ [i]) after :=
      ih (fun left hleft => hnext left (by simpa using hleft))
        fun j hj => h j (List.mem_cons_of_mem _ hj)
    -- what is left when the candidate is chosen
    have hleft : before ++ after ⊆ before ++ i :: after := by
      intro j hj
      rcases List.mem_append.mp hj with hj | hj
      · exact List.mem_append_left _ hj
      · exact List.mem_append_right _ (List.mem_cons_of_mem _ hj)
    rw [assignFirst_cons]
    refine within_bind (within_ask (h i List.mem_cons_self)) ?_
    intro answer
    cases answer with
    | false => exact hskip
    | true =>
      refine within_bind (hnext (before ++ after) hleft) ?_
      intro found
      cases found with
      | none => exact hskip
      | some pairs => exact within_pure _

theorem within_assign {templates individuals : List Term}
    (h : ∀ i ∈ individuals, ∀ t ∈ templates, P i t) :
    Within P fun accepts => assign accepts templates individuals := by
  induction templates generalizing individuals with
  | nil => exact within_pure (some [])
  | cons t rest ih =>
    simp only [assign]
    split
    · exact within_pure none
    · apply within_assignFirst fun left accepts => assign accepts rest left
      · intro left hleft
        exact ih fun i hi s hs => h i (by simpa using hleft hi) s (List.mem_cons_of_mem _ hs)
      · exact fun i hi => h i hi t List.mem_cons_self

theorem within_partner {i : Term} {templates : List Term} (h : ∀ t ∈ templates, P i t) :
    Within P fun accepts => partner accepts i templates := by
  induction templates with
  | nil => exact within_pure none
  | cons t rest ih =>
    have hcons : (fun accepts => partner accepts i (t :: rest)) =
        ((do if ← ask i t then return some t else (fun accepts => partner accepts i rest)) :
          Asking (Option Term)) := by
      funext accepts q
      rw [bind_apply, ask, partner]
      cases q.ask accepts i t with
      | mk answer q' => cases answer <;> rfl
    rw [hcons]
    refine within_bind (within_ask (h t List.mem_cons_self)) ?_
    intro answer
    cases answer with
    | false => exact ih fun s hs => h s (List.mem_cons_of_mem _ hs)
    | true => exact within_pure _

theorem within_complete {assigned : List (Term × Term)} {templates individuals : List Term}
    (h : ∀ i ∈ individuals, ∀ t ∈ templates, P i t) (m : Mapping) :
    Within P fun accepts => complete accepts assigned templates individuals m := by
  induction individuals generalizing m with
  | nil => exact within_pure m
  | cons i rest ih =>
    have hrest := ih fun j hj => h j (List.mem_cons_of_mem _ hj)
    simp only [complete]
    -- only an individual that is not assigned brings up questions
    split
    · exact hrest _
    · exact within_bind (f := fun accepts => partner accepts i templates)
        (g := fun found accepts =>
          complete accepts assigned templates rest (m.insert i (.optional found)))
        (within_partner (h i List.mem_cons_self)) fun found => hrest _

/-- The search, for any inquiry to start with. -/
def searching (individuals templates : List Term) : Asking (Option Mapping) := do
  let individuals := Distinct.dedup individuals
  let templates := Distinct.dedup templates
  let assigning : Asking (Option (List (Term × Term))) :=
    fun accepts => assign accepts templates individuals
  match ← assigning with
  | none => return none
  | some assigned =>
    let completing : Asking Mapping := fun accepts =>
      complete accepts assigned templates individuals ∅
    return some (← completing)

theorem search_eq_searching (accepts : Term → Term → Bool) (individuals templates : List Term) :
    search accepts individuals templates = searching individuals templates accepts .start := by
  have hbind : searching individuals templates accepts .start = _ := bind_apply _ _ _ _
  rw [search, hbind]
  dsimp only
  cases assign accepts (Distinct.dedup templates) (Distinct.dedup individuals) .start with
  | mk found q => cases found <;> rfl

/-- The search asks about distinct pairs of the given individuals and nothing else. -/
theorem within_searching (individuals templates : List Term) :
    Within (fun i t => i ∈ individuals ∧ t ∈ templates) (searching individuals templates) := by
  have hpairs : ∀ i ∈ Distinct.dedup individuals, ∀ t ∈ Distinct.dedup templates,
      i ∈ individuals ∧ t ∈ templates :=
    fun i hi t ht => ⟨Distinct.mem_dedup.mp hi, Distinct.mem_dedup.mp ht⟩
  refine within_bind (within_assign hpairs) ?_
  intro found
  cases found with
  | none => exact within_pure none
  | some assigned => exact within_bind (within_complete hpairs ∅) fun m => within_pure (some m)

/-! ## What is found -/

/-- Completing an assignment adds an entry for each individual, in order. -/
theorem keys_complete (assigned : List (Term × Term)) (templates individuals : List Term)
    (m : Mapping) (q : Inquiry) (h : (m.keys ++ individuals).Nodup) :
    (complete accepts assigned templates individuals m q).1.keys = m.keys ++ individuals := by
  induction individuals generalizing m q with
  | nil => simp [complete]
  | cons i rest ih =>
    have hnew : m.get? i = none := by
      apply Table.get?_eq_none_of_not_mem_keys
      intro hi
      exact (List.nodup_append.mp h).2.2 i hi i List.mem_cons_self rfl
    -- whatever the entry of `i` is, it comes next
    have hnext : ∀ pairing q', (complete accepts assigned templates rest (m.insert i pairing)
        q').1.keys = m.keys ++ i :: rest := by
      intro pairing q'
      have hkeys := Table.keys_insert_of_get?_eq_none hnew pairing
      rw [ih, hkeys, List.append_assoc, List.singleton_append]
      rw [hkeys, List.append_assoc, List.singleton_append]
      exact h
    rw [complete]
    split
    · exact hnext _ _
    · exact hnext _ _

theorem keys_of_find? {individuals templates : List Term} {m : Mapping}
    (h : find? accepts individuals templates = some m) : m.keys = Distinct.dedup individuals := by
  rw [find?, search] at h
  dsimp only at h
  split at h
  · exact absurd h (by simp)
  · rename_i assigned q hassigned
    rw [← Option.some.inj h]
    exact keys_complete assigned _ _ ∅ q (Distinct.nodup_dedup individuals)

/-- The search asks about each pair of given individuals at most once, and depends on nothing that
it does not ask. A mapping that it finds lists each individual once, in order of first occurrence.
Its required entries are the first assignment of distinct individuals to the distinct template
individuals, and every other individual has the first template individual that it is accepted
for, or none. -/
theorem first_of_find? (accepts : Term → Term → Bool) (individuals templates : List Term) :
    ((search accepts individuals templates).2.asked.Nodup ∧
      (∀ p ∈ (search accepts individuals templates).2.asked,
        p.1 ∈ individuals ∧ p.2 ∈ templates) ∧
      ∀ accepts' : Term → Term → Bool,
        (∀ p ∈ (search accepts individuals templates).2.asked,
          accepts' p.1 p.2 = accepts p.1 p.2) →
        search accepts' individuals templates = search accepts individuals templates) ∧
    ∀ m, find? accepts individuals templates = some m →
      m.keys = Distinct.dedup individuals ∧
      ∃ pairs, IsFirstAssignment accepts individuals (Distinct.dedup templates) pairs ∧
        (∀ i t, m.get? i = some (.required t) ↔ (i, t) ∈ pairs) ∧
        ∀ i ∈ individuals, (∀ t, (i, t) ∉ pairs) →
          m.get? i = some (.optional (templates.find? (accepts i))) := by
  have hwithin := within_searching individuals templates
  constructor
  · simp only [search_eq_searching]
    refine ⟨(hwithin.logged accepts .start rfl).nodup, ?_,
      fun accepts' => hwithin.congr accepts accepts' .start⟩
    intro p hp
    rcases hwithin.mem accepts .start p hp with h | h
    · exact absurd h List.not_mem_nil
    · exact h
  · intro m hm
    refine ⟨keys_of_find? hm, ?_⟩
    obtain ⟨hnone, -⟩ | ⟨m', pairs, hm', hpairs, hget⟩ := find?_eq accepts individuals templates
    · exact absurd (hm.symm.trans hnone) (by simp)
    obtain rfl : m' = m := Option.some.inj (hm'.symm.trans hm)
    have hfirst := isFirstAssignment_of_firstAssignment hpairs
    refine ⟨pairs, hfirst, ?_, ?_⟩
    · intro i t
      rw [hget i]
      by_cases hi : i ∈ individuals
      · rw [if_pos hi, Option.some.injEq, pairing_eq_required_iff hfirst.nodup]
      · rw [if_neg hi]
        exact ⟨fun h => absurd h (by simp), fun h => absurd (hfirst.mem _ h) hi⟩
    · intro i hi hleft
      have hlookup : pairs.lookup i = none := by
        rw [Option.eq_none_iff_forall_not_mem]
        exact fun t ht => hleft t (mem_of_lookup ht)
      rw [hget i, if_pos hi, pairing, hlookup, Distinct.find?_dedup]

/-- Node 0 is accepted for both template nodes and nodes 1 and 9 for node 2 only: node 0 is needed
for node 3, so node 1 is the first one for node 2, and node 9 is left over. -/
theorem first_of_find?_left_over :
    let accepts : Term → Term → Bool := fun i t => i = .blank ⟨0, none⟩ || t = .blank ⟨2, none⟩
    let individuals : List Term :=
      [.blank ⟨0, none⟩, .blank ⟨0, none⟩, .blank ⟨1, none⟩, .blank ⟨9, none⟩]
    let templates : List Term := [.blank ⟨2, none⟩, .blank ⟨3, none⟩, .blank ⟨2, none⟩]
    (search accepts individuals templates).2.asked.Nodup ∧
      ∃ m, find? accepts individuals templates = some m ∧
        m.keys = Distinct.dedup individuals ∧
        ∃ pairs, IsFirstAssignment accepts individuals (Distinct.dedup templates) pairs ∧
          (.blank ⟨1, none⟩, .blank ⟨2, none⟩) ∈ pairs ∧
          (.blank ⟨0, none⟩, .blank ⟨3, none⟩) ∈ pairs ∧
          m.get? (.blank ⟨9, none⟩) =
            some (.optional (templates.find? (accepts (.blank ⟨9, none⟩)))) := by
  intro accepts individuals templates
  obtain ⟨⟨hasked, -⟩, hfound⟩ := first_of_find? accepts individuals templates
  have hsome : (find? accepts individuals templates).isSome = true := by decide
  obtain ⟨m, hm⟩ := Option.isSome_iff_exists.mp hsome
  obtain ⟨hkeys, pairs, hfirst, hrequired, hleft⟩ := hfound m hm
  have hget : ∀ i pairing, (find? accepts individuals templates).bind (·.get? i) = some pairing →
      m.get? i = some pairing := by
    intro i pairing h
    rwa [hm, Option.bind_some] at h
  refine ⟨hasked, m, hm, hkeys, pairs, hfirst, ?_, ?_, ?_⟩
  · exact (hrequired _ _).mp (hget _ _ (by decide))
  · exact (hrequired _ _).mp (hget _ _ (by decide))
  · apply hleft _ (by decide)
    intro t ht
    have hoptional := hget (.blank ⟨9, none⟩) (.optional (some (.blank ⟨2, none⟩))) (by decide)
    exact absurd (hoptional.symm.trans ((hrequired _ t).mpr ht)) (by simp)

end Mapping

end GraphConformance
