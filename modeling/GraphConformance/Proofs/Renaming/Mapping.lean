import GraphConformance.Mapping.Search
import GraphConformance.Proofs.Renaming.Terms

/-!
# Renamed mappings

The search for a mapping compares individuals by equality and by what they are accepted for. When
acceptance is the same for renamed individuals, the search takes the same turns on them: it keeps
renamed answers (`Inquiry.Renamed`), goes back where it went back before, and finds the renamed
mapping with its entries in the same order (`renamed_find?`).
-/

set_option autoImplicit false

namespace GraphConformance

/-- The pair with other nodes in place of its blank nodes. -/
def renameTerms (f : BlankNode → BlankNode) (pair : Term × Term) : Term × Term :=
  (pair.1.rename f, pair.2.rename f)

/-- The pairing with other nodes in place of its blank nodes. -/
def Pairing.rename (f : BlankNode → BlankNode) : Pairing → Pairing
  | .required template => .required (template.rename f)
  | .optional template => .optional (template.map (Term.rename f))

variable {ρ : BlankNode ↪ BlankNode}

theorem renameTerms_injective (ρ : BlankNode ↪ BlankNode) : Function.Injective (renameTerms ρ) :=
  (Term.rename_injective ρ).prodMap (Term.rename_injective ρ)

/-! ## Questions -/

/-- The second inquiry knows of renamed pairs what the first knows of the old ones, and asked about
them in the same order. -/
structure Inquiry.Renamed (f : BlankNode → BlankNode) (q q' : Inquiry) : Prop where
  answers : q.answers.Renamed (renameTerms f) Eq q'.answers
  asked : q'.asked = q.asked.map (renameTerms f)

section Search

variable {accepts accepts' : Term → Term → Bool}
  (haccepts : ∀ x t, accepts' (x.rename ρ) (t.rename ρ) = accepts x t)

include haccepts

theorem Inquiry.Renamed.ask {q q' : Inquiry} (hq : q.Renamed ρ q') (x t : Term) :
    (q'.ask accepts' (x.rename ρ) (t.rename ρ)).1 = (q.ask accepts x t).1 ∧
      (q.ask accepts x t).2.Renamed ρ (q'.ask accepts' (x.rename ρ) (t.rename ρ)).2 := by
  have hanswer := hq.answers.get? (renameTerms_injective ρ) (x, t)
  change Option.Rel Eq _ (q'.answers.get? (x.rename ρ, t.rename ρ)) at hanswer
  rw [Inquiry.ask, Inquiry.ask]
  generalize q.answers.get? (x, t) = answer at hanswer ⊢
  generalize q'.answers.get? (x.rename ρ, t.rename ρ) = answer' at hanswer ⊢
  cases hanswer with
  | some h => exact ⟨h.symm, hq⟩
  | none =>
    refine ⟨haccepts x t, ?_, ?_⟩
    · exact hq.answers.insert (renameTerms_injective ρ) (x, t) (haccepts x t).symm
    · dsimp only
      rw [hq.asked, List.map_append]
      rfl

namespace Mapping

/-- The second assignment is the first between renamed individuals. -/
structure AssignmentsAlike (f : BlankNode → BlankNode) (a a' : Assignment) : Prop where
  pairs : a'.1 = a.1.map (List.map (renameTerms f))
  inquiry : a.2.Renamed f a'.2

theorem assignmentsAlike_assignFirst {next next' : List Term → Inquiry → Assignment}
    (hnext : ∀ xs q q', q.Renamed ρ q' →
      AssignmentsAlike ρ (next xs q) (next' (xs.map (Term.rename ρ)) q'))
    (t : Term) (before after : List Term) {q q' : Inquiry} (hq : q.Renamed ρ q') :
    AssignmentsAlike ρ (assignFirst accepts next t before after q)
      (assignFirst accepts' next' (t.rename ρ) (before.map (Term.rename ρ))
        (after.map (Term.rename ρ)) q') := by
  induction after generalizing before q q' with
  | nil => exact ⟨rfl, hq⟩
  | cons x after ih =>
    obtain ⟨hanswer, hasked⟩ := hq.ask haccepts x t
    -- the next individual is tried when this one is refused, or when it is taken back
    have hrest : ∀ {q q' : Inquiry}, q.Renamed ρ q' →
        AssignmentsAlike ρ (assignFirst accepts next t (before ++ [x]) after q)
          (assignFirst accepts' next' (t.rename ρ) (before.map (Term.rename ρ) ++ [x.rename ρ])
            (after.map (Term.rename ρ)) q') := by
      intro q q' hq
      have := ih (before ++ [x]) hq
      rwa [List.map_append] at this
    rw [List.map_cons, assignFirst, assignFirst]
    generalize q.ask accepts x t = first at hanswer hasked ⊢
    generalize q'.ask accepts' (x.rename ρ) (t.rename ρ) = first' at hanswer hasked ⊢
    obtain ⟨answer, q₁⟩ := first
    obtain ⟨answer', q₁'⟩ := first'
    obtain rfl : answer' = answer := hanswer
    cases answer' with
    | false => exact hrest hasked
    | true =>
      have hchosen := hnext (before ++ after) q₁ q₁' hasked
      rw [List.map_append] at hchosen
      dsimp only
      generalize next (before ++ after) q₁ = found at hchosen ⊢
      generalize next' (before.map (Term.rename ρ) ++ after.map (Term.rename ρ)) q₁' = found'
        at hchosen ⊢
      obtain ⟨pairs, q₂⟩ := found
      obtain ⟨pairs', q₂'⟩ := found'
      obtain ⟨hpairs, hq₂⟩ := hchosen
      obtain rfl : pairs' = pairs.map (List.map (renameTerms ρ)) := hpairs
      cases pairs with
      | some pairs => exact ⟨rfl, hq₂⟩
      | none => exact hrest hq₂

theorem assignmentsAlike_assign (ts xs : List Term) {q q' : Inquiry} (hq : q.Renamed ρ q') :
    AssignmentsAlike ρ (assign accepts ts xs q)
      (assign accepts' (ts.map (Term.rename ρ)) (xs.map (Term.rename ρ)) q') := by
  induction ts generalizing xs q q' with
  | nil => exact ⟨rfl, hq⟩
  | cons t ts ih =>
    rw [List.map_cons, assign, assign, List.length_map, List.length_map]
    split
    · exact ⟨rfl, hq⟩
    · exact assignmentsAlike_assignFirst haccepts (fun xs q q' hq => ih xs hq) t [] xs hq

theorem partner_rename (x : Term) (ts : List Term) {q q' : Inquiry} (hq : q.Renamed ρ q') :
    (partner accepts' (x.rename ρ) (ts.map (Term.rename ρ)) q').1 =
        (partner accepts x ts q).1.map (Term.rename ρ) ∧
      (partner accepts x ts q).2.Renamed ρ
        (partner accepts' (x.rename ρ) (ts.map (Term.rename ρ)) q').2 := by
  induction ts generalizing q q' with
  | nil => exact ⟨rfl, hq⟩
  | cons t ts ih =>
    obtain ⟨hanswer, hasked⟩ := hq.ask haccepts x t
    rw [List.map_cons, partner, partner]
    generalize q.ask accepts x t = first at hanswer hasked ⊢
    generalize q'.ask accepts' (x.rename ρ) (t.rename ρ) = first' at hanswer hasked ⊢
    obtain ⟨answer, q₁⟩ := first
    obtain ⟨answer', q₁'⟩ := first'
    obtain rfl : answer' = answer := hanswer
    cases answer' with
    | true => exact ⟨rfl, hasked⟩
    | false => exact ih hasked

/-! ## Mappings -/

omit haccepts in
theorem lookup_rename (pairs : List (Term × Term)) (x : Term) :
    (pairs.map (renameTerms ρ)).lookup (x.rename ρ) = (pairs.lookup x).map (Term.rename ρ) := by
  induction pairs with
  | nil => rfl
  | cons pair pairs ih =>
    obtain ⟨y, t⟩ := pair
    rw [List.map_cons, renameTerms]
    by_cases hx : x = y
    · subst hx
      rw [List.lookup_cons_self, List.lookup_cons_self, Option.map_some]
    · rw [List.lookup_cons, List.lookup_cons, beq_false_of_ne hx,
        beq_false_of_ne (fun h => hx (Term.rename_inj.mp h))]
      exact ih

/-- The second mapping is the first between renamed individuals, its entries in the same order. -/
def Renamed (f : BlankNode → BlankNode) (m m' : Mapping) : Prop :=
  Table.Renamed (Term.rename f) (fun p p' => p' = p.rename f) m m'

theorem renamed_complete (assigned : List (Term × Term)) (ts xs : List Term) {m m' : Mapping}
    (hm : Renamed ρ m m') {q q' : Inquiry} (hq : q.Renamed ρ q') :
    Renamed ρ (complete accepts assigned ts xs m q).1
      (complete accepts' (assigned.map (renameTerms ρ)) (ts.map (Term.rename ρ))
        (xs.map (Term.rename ρ)) m' q').1 := by
  induction xs generalizing m m' q q' with
  | nil => exact hm
  | cons x xs ih =>
    obtain ⟨hpartner, hasked⟩ := partner_rename haccepts x ts hq
    rw [List.map_cons, complete, complete, lookup_rename]
    cases assigned.lookup x with
    | some t => exact ih (hm.insert (Term.rename_injective ρ) x rfl) hq
    | none =>
      refine ih (hm.insert (Term.rename_injective ρ) x ?_) hasked
      rw [hpartner]
      rfl

/-- Renamed individuals have the renamed mapping, or none as before. -/
theorem renamed_find? (xs ts : List Term) :
    Option.Rel (Renamed ρ) (find? accepts xs ts)
      (find? accepts' (xs.map (Term.rename ρ)) (ts.map (Term.rename ρ))) := by
  -- what was asked while templates were assigned is kept for the individuals left over
  have hstart : Inquiry.start.Renamed ρ .start := ⟨.nil, rfl⟩
  obtain ⟨hpairs, hasked⟩ := assignmentsAlike_assign haccepts (Distinct.dedup ts)
    (Distinct.dedup xs) hstart
  rw [find?, find?, search, search, Distinct.dedup_map (Term.rename_injective ρ),
    Distinct.dedup_map (Term.rename_injective ρ)]
  dsimp only
  generalize assign accepts (Distinct.dedup ts) (Distinct.dedup xs) .start = found
    at hpairs hasked ⊢
  generalize assign accepts' ((Distinct.dedup ts).map (Term.rename ρ))
    ((Distinct.dedup xs).map (Term.rename ρ)) .start = found' at hpairs hasked ⊢
  obtain ⟨pairs, q⟩ := found
  obtain ⟨pairs', q'⟩ := found'
  obtain rfl : pairs' = pairs.map (List.map (renameTerms ρ)) := hpairs
  cases pairs with
  | none => exact .none
  | some pairs => exact .some (renamed_complete haccepts pairs _ _ Table.renamed_empty hasked)

end Mapping

end Search

namespace Mapping

theorem Renamed.pairs {m m' : Mapping} (h : Renamed ρ m m') :
    m'.pairs = m.pairs.map (renameTerms ρ) := by
  unfold Renamed Table.Renamed at h
  rw [Mapping.pairs, Mapping.pairs]
  generalize m.entries = entries at h ⊢
  generalize m'.entries = entries' at h ⊢
  induction h with
  | nil => rfl
  | @cons entry entry' entries entries' hentry _ ih =>
    obtain ⟨x, p⟩ := entry
    obtain ⟨x', p'⟩ := entry'
    obtain ⟨rfl, rfl⟩ := hentry
    rw [List.filterMap_cons, List.filterMap_cons, ih]
    cases p with
    | required t => rfl
    | optional t => cases t <;> rfl

theorem Renamed.isRequired {m m' : Mapping} (h : Renamed ρ m m') (x : Term) :
    m'.isRequired (x.rename ρ) = m.isRequired x := by
  have hentry := Table.Renamed.get? (Term.rename_injective ρ) h x
  rw [Mapping.isRequired, Mapping.isRequired]
  generalize m.get? x = p at hentry ⊢
  generalize m'.get? (x.rename ρ) = p' at hentry ⊢
  cases hentry with
  | none => rfl
  | @some p _ hp =>
    subst hp
    cases p <;> rfl

end Mapping

end GraphConformance
