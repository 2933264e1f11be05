import GraphConformance.Proofs.Turtle.TwinTokens

/-!
# Entries of texts that are read alike

Each production of the grammar keeps its answer and its state from a text to one that is read alike,
as long as it stops before what may differ (`readTerm_twin` to `readEntry_twin`). Where a production
stops behind a gap, the gap has to end in the text, because in the other one it may go on; that is
so in front of every dot and bracket.
-/

set_option autoImplicit false

namespace GraphConformance.Turtle

open Text Vocabulary

/-! ## Required characters -/

section Expect

variable {s : List Char} {m : Char} {cause : Cause} {r q : Shorter s}

theorem length_lt_of_expect (h : expect m cause r = .ok ((), q)) : q.1.length < r.1.length := by
  rw [expect] at h
  split at h
  · rename_i p _
    obtain ⟨-, rfl⟩ := Prod.mk.inj (Except.ok.inj h)
    exact p.2
  · cases h

theorem ne_nil_of_expect (h : expect m cause r = .ok ((), q)) : r.1 ≠ [] :=
  List.ne_nil_of_length_pos (Nat.zero_lt_of_lt (length_lt_of_expect h))

theorem ne_nil_of_skip {t : List Char} (h : skip t ≠ []) : t ≠ [] := by
  rintro rfl
  exact h rfl

/-- What stands behind a gap and a required character is no longer than what stood before them. -/
theorem le_of_expect_skip {n : Nat} (hn : n ≤ q.1.length)
    (h : expect m cause r.skip = .ok ((), q)) : n ≤ r.1.length :=
  (hn.trans (Nat.le_of_lt (length_lt_of_expect h))).trans (length_skip_le r.1)

end Expect

/-! ## Single productions -/

theorem mayFollowShorthand_cons (c : Char) (s : List Char) : mayFollowShorthand (c :: s) =
    (c == '_' && s.head? == some ':' || (isBlank c || c == '<' || c == '[' || c == '(')) := by
  by_cases hc : c = '_'
  · subst hc
    cases s with
    | nil => rfl
    | cons d s =>
      by_cases hd : d = ':'
      · subst hd
        rfl
      · have hother : mayFollowShorthand ('_' :: d :: s) = false := by
          rw [mayFollowShorthand]
          · decide
          · rintro t - heq
            exact hd (List.cons.inj heq).1
        rw [hother]
        simp [hd, show isBlank '_' = false by decide]
  · rw [mayFollowShorthand]
    · simp [hc]
    · rintro t rfl -
      exact hc rfl

/-- The shorthand for a type is no term. -/
theorem readTerm_shorthand (st : State) :
    readTerm st ['a'] = ⟨st, .error (.before ['a'] (.noTerm ['a']))⟩ := by
  rw [readTerm]
  rfl

theorem startsWithKeyword_cons {k c : Char} {keyword t : List Char} :
    startsWithKeyword (k :: keyword) (c :: t) =
      (c.toLower == k.toLower && startsWithKeyword keyword t) := by
  simp [startsWithKeyword, Bool.and_assoc]

theorem ne_of_startsWithKeyword {keyword t : List Char} (h : startsWithKeyword keyword t = true) :
    t.map Char.toLower ≠ keyword.map Char.toLower := by
  intro heq
  have hlength : t.length = keyword.length := by simpa using congrArg List.length heq
  rw [startsWithKeyword, List.drop_eq_nil_of_le (Nat.le_of_eq hlength), Bool.and_false] at h
  cases h

section Productions

variable {st st' : State} {s : List Char} {r q : Shorter s} {v : Unit}

theorem le_of_readPrefixDeclaration (h : readPrefixDeclaration st r = ⟨st', .ok (v, q)⟩) :
    q.1.length ≤ r.1.length := by
  rw [readPrefixDeclaration] at h
  split at h
  · cases h
  · rename_i w p hcolon
    dsimp only at h
    split at h
    · cases h
    · rename_i text z _
      cases h
      have hcolon := Nat.le_of_lt (length_lt_of_expect hcolon)
      have hreference := (Nat.le_of_lt z.2).trans (length_skip_le p.1)
      exact ((hreference.trans hcolon).trans (length_dropWhile_le _ _)).trans (length_skip_le r.1)

theorem le_of_readBaseDeclaration (h : readBaseDeclaration st r = ⟨st', .ok (v, q)⟩) :
    q.1.length ≤ r.1.length := by
  rw [readBaseDeclaration] at h
  split at h
  · cases h
  · rename_i text p _
    cases h
    exact (Nat.le_of_lt p.2).trans (length_skip_le r.1)

/-- A statement holds the dot at its end. -/
theorem dot_mem_of_readStatement (h : readStatement st s = ⟨st', .ok (v, r)⟩) : '.' ∈ s := by
  have hdot : ∀ {q r : Shorter s} {w : Unit}, q.1 <:+ s →
      expect '.' .dotAfterStatement q = .ok (w, r) → '.' ∈ s := by
    intro q r w hq hexpect
    rw [expect] at hexpect
    split at hexpect
    · rename_i p hp
      apply hq.subset
      rw [eq_cons_of_mark? hp]
      exact List.mem_cons_self
    · cases hexpect
  rw [readStatement] at h
  split at h
  · cases h
  · rename_i st'' subject p hterm
    have hfollows := ((within_readTerm st s).follows _ p (congrArg Reading.result hterm)).trans
      (follows_skip p.1)
    split at h
    · split at h
      · exact hdot hfollows.suffix (Reading.mk.inj h).2
      · split at h
        · cases h
        · rename_i last w q hpredicates
          have hbehind := (hfollows.trans ((within_readPredicates st'' subject _).follows _ q
            (congrArg Reading.result hpredicates))).trans (follows_skip q.1)
          exact hdot hbehind.suffix (Reading.mk.inj h).2
    · cases h

end Productions

section Twins

variable {bound : Nat} {R : List Char → List Char → Prop} (hR : Twin bound R)

include hR

theorem expect_twin {s u : List Char} {r : Shorter s} {r' : Shorter u} {m : Char} (hm : IsMark m)
    (h : Rests R r r') {cause : Cause} {v : Unit} {q : Shorter s}
    (hq : expect m cause r = .ok (v, q)) :
    ∃ q', expect m cause r' = .ok (v, q') ∧ Rests R q q' := by
  rw [expect] at hq
  split at hq
  · rename_i p hp
    obtain ⟨p', hp', hrests⟩ := exists_of_rel (mark?_twin hR hm h) hp
    obtain ⟨-, rfl⟩ := Prod.mk.inj (Except.ok.inj hq)
    exact ⟨r'.trans p', by rw [expect, hp'], hrests⟩
  · cases hq

/-- A required dot behind a gap is still there. -/
theorem expect_skip_twin {s u : List Char} {r : Shorter s} {r' : Shorter u} (h : Rests R r r')
    {cause : Cause} {v : Unit} {q : Shorter s} (hq : expect '.' cause r.skip = .ok (v, q)) :
    ∃ q', expect '.' cause r'.skip = .ok (v, q') ∧ Rests R q q' := by
  have hend : Rests R r.skip r'.skip := skip_twin hR h (ne_nil_of_expect hq)
  exact expect_twin hR (by decide) hend hq

/-! ## The grammar -/

theorem mayFollowShorthand_twin {s u : List Char} (hs : s ≠ []) (h : R s u) :
    mayFollowShorthand u = mayFollowShorthand s := by
  cases s with
  | nil => exact absurd rfl hs
  | cons c s =>
    obtain ⟨d, v, rfl, hv, hcase, -⟩ := hR.cons h
    have hblank : isBlank d = isBlank c := by rw [← isBlank_toLower d, hcase, isBlank_toLower]
    have hmark : ∀ m : Char, IsMark m → (d == m) = (c == m) := by
      intro m hm
      rw [Bool.eq_iff_iff, beq_iff_eq, beq_iff_eq, eq_iff_of_toLower hm.1 hcase]
    have hcolon : (v.head? == some ':') = (s.head? == some ':') := by
      rw [Bool.eq_iff_iff, beq_iff_eq, beq_iff_eq, hR.head?_iff (by decide) hv]
    rw [mayFollowShorthand_cons, mayFollowShorthand_cons, hblank, hcolon, hmark '_' (by decide),
      hmark '<' (by decide), hmark '[' (by decide), hmark '(' (by decide)]

theorem typeShorthand?_twin {s u : List Char} (hs : s ≠ ['a']) (hle : bound ≤ s.length)
    (h : R s u) : Option.Rel (Rests R) (typeShorthand? s) (typeShorthand? u) := by
  have hnone : ∀ t : List Char, t.head? ≠ some 'a' → typeShorthand? t = none := by
    intro t ht
    rw [typeShorthand?]
    rintro rest rfl
    exact ht rfl
  cases s with
  | nil =>
    rw [hnone u (hR.head?_ne h (by decide))]
    exact .none
  | cons c s =>
    obtain ⟨d, v, rfl, hv, -, -⟩ := hR.cons h
    have hletter : d = 'a' ↔ c = 'a' := hR.eq_letter_iff h hle (by decide)
    by_cases hc : c = 'a'
    · obtain rfl := hletter.mpr hc
      subst hc
      have hrest : s ≠ [] := fun heq => hs (by rw [heq])
      simp only [typeShorthand?, mayFollowShorthand_twin hR hrest hv]
      split
      · exact .some hv
      · exact .none
    · rw [hnone (c :: s) (by simpa using hc), hnone (d :: v) (by simpa using mt hletter.mp hc)]
      exact .none

theorem endsPredicates_twin {s u : List Char} (hs : s ≠ []) (h : R s u) :
    endsPredicates u = endsPredicates s := by
  cases s with
  | nil => exact absurd rfl hs
  | cons c s =>
    obtain ⟨d, v, rfl, -, hcase, -⟩ := hR.cons h
    rw [endsPredicates, endsPredicates, Bool.eq_iff_iff, Bool.or_eq_true, Bool.or_eq_true]
    simp only [beq_iff_eq]
    exact or_congr (eq_iff_of_toLower (by decide) hcase) (eq_iff_of_toLower (by decide) hcase)

mutual

theorem readTerm_twin {st st' : State} {s u : List Char} (h : R s u) (hclosed : ClosesWithin R s)
    {term : Term} {r : Shorter s} (hr : bound ≤ r.1.length)
    (hread : readTerm st s = ⟨st', .ok (term, r)⟩) :
    ∃ r', readTerm st u = ⟨st', .ok (term, r')⟩ ∧ Rests R r r' := by
  rw [readTerm] at hread
  split at hread
  · rename_i p hbracket
    obtain ⟨p', hbracket', hp⟩ := exists_of_rel (mark?_twin hR (by decide) h) hbracket
    have hfollows := (Follows.mark (by decide) hbracket).trans (follows_skip p.1)
    have hlt : (skip p.1).length < s.length := p.skip.2
    dsimp only at hread
    split at hread
    · rename_i q hclose
      have hskip := skip_twin hR hp q.ne_nil
      obtain ⟨q', hclose', hq⟩ := exists_of_rel (mark?_twin hR (by decide) hskip) hclose
      cases hread
      refine ⟨p'.skip.trans q', ?_, hq⟩
      rw [readTerm, hbracket']
      dsimp only
      rw [hclose']
    · rename_i hopen
      split at hread
      · cases hread
      · rename_i st'' v q hinside
        have hskip := skip_twin hR hp q.ne_nil
        cases hbehind : expect ']' .closingBracket (p.skip.trans q).skip with
        | error halt =>
          rw [hbehind] at hread
          cases hread
        | ok answer =>
          obtain ⟨w, z⟩ := answer
          have hne := ne_nil_of_expect hbehind
          rw [hbehind] at hread
          cases hread
          have hq_le : bound ≤ q.1.length := le_of_expect_skip (r := p.skip.trans q) hr hbehind
          obtain ⟨q', hinside', hq⟩ := readPredicates_twin hskip (hclosed.of_follows hfollows)
            (ne_nil_of_skip hne) hq_le hinside
          have hend : Rests R (p.skip.trans q).skip (p'.skip.trans q').skip := skip_twin hR hq hne
          obtain ⟨z', hbehind', hz⟩ := expect_twin hR (by decide) hend hbehind
          refine ⟨z', ?_, hz⟩
          rw [readTerm, hbracket']
          dsimp only
          rw [eq_none_of_rel (mark?_twin hR (by decide) hskip) hopen, hinside']
          dsimp only
          rw [hbehind']
          rfl
  · rename_i hbracket
    have hbracket' := eq_none_of_rel (mark?_twin hR (by decide) h) hbracket
    split at hread
    · rename_i p hparen
      obtain ⟨p', hparen', hp⟩ := exists_of_rel (mark?_twin hR (by decide) h) hparen
      have hfollows := (Follows.mark (by decide) hparen).trans (follows_skip p.1)
      have hlt : (skip p.1).length < s.length := p.skip.2
      dsimp only at hread
      split at hread
      · cases hread
      · rename_i st'' items q hinside
        cases hread
        obtain ⟨q', hinside', hq⟩ :=
          readItems_twin (skip_twin hR hp q.ne_nil) (hclosed.of_follows hfollows) hr hinside
        refine ⟨p'.skip.trans q', ?_, hq⟩
        rw [readTerm, hbracket']
        dsimp only
        rw [hparen']
        dsimp only
        rw [hinside']
    · rename_i hparen
      split at hread
      · cases hread
      · rename_i atom p hatom
        split at hread
        · cases hread
        · rename_i st'' placed hplace
          cases hread
          obtain ⟨p', hatom', hp⟩ := readAtom_twin hR h hclosed hr hatom
          refine ⟨p', ?_, hp⟩
          rw [readTerm, hbracket']
          dsimp only
          rw [eq_none_of_rel (mark?_twin hR (by decide) h) hparen, hatom']
          dsimp only
          rw [hplace]
termination_by (s.length, 0)

theorem readItems_twin {st st' : State} {s u : List Char} (h : R s u) (hclosed : ClosesWithin R s)
    {items : List Term} {r : Shorter s} (hr : bound ≤ r.1.length)
    (hread : readItems st s = ⟨st', .ok (items, r)⟩) :
    ∃ r', readItems st u = ⟨st', .ok (items, r')⟩ ∧ Rests R r r' := by
  rw [readItems] at hread
  split at hread
  · rename_i p hparen
    obtain ⟨p', hparen', hp⟩ := exists_of_rel (mark?_twin hR (by decide) h) hparen
    cases hread
    exact ⟨p', by rw [readItems, hparen'], hp⟩
  · rename_i hparen
    split at hread
    · cases hread
    · rename_i st'' item p hterm
      have hfollows := ((within_readTerm st s).follows _ p (congrArg Reading.result hterm)).trans
        (follows_skip p.1)
      have hlt : (skip p.1).length < s.length := p.skip.2
      dsimp only at hread
      split at hread
      · cases hread
      · rename_i last more q hitems
        cases hread
        have hq_le : bound ≤ (skip p.1).length := hr.trans (Nat.le_of_lt q.2)
        obtain ⟨p', hterm', hp⟩ :=
          readTerm_twin h hclosed (hq_le.trans (length_skip_le p.1)) hterm
        obtain ⟨q', hitems', hq⟩ :=
          readItems_twin (skip_twin hR hp q.ne_nil) (hclosed.of_follows hfollows) hr hitems
        refine ⟨p'.skip.trans q', ?_, hq⟩
        rw [readItems, eq_none_of_rel (mark?_twin hR (by decide) h) hparen]
        dsimp only
        rw [hterm']
        dsimp only
        rw [hitems']
termination_by (s.length, 1)

theorem readPredicate_twin {st st' : State} {s u : List Char} (h : R s u)
    (hclosed : ClosesWithin R s) {term : Term} {r : Shorter s} (hr : bound ≤ r.1.length)
    (hread : readPredicate st s = ⟨st', .ok (term, r)⟩) :
    ∃ r', readPredicate st u = ⟨st', .ok (term, r')⟩ ∧ Rests R r r' := by
  -- the shorthand at the end of a text is none, but with a line end behind it it would be one
  have hshorthand : s ≠ ['a'] := by
    rintro rfl
    rw [readPredicate, readTerm_shorthand] at hread
    cases hread
  have hrel := typeShorthand?_twin hR hshorthand (hr.trans (Nat.le_of_lt r.2)) h
  rw [readPredicate] at hread
  split at hread
  · rename_i p hp
    obtain ⟨p', hp', hrests⟩ := exists_of_rel hrel hp
    cases hread
    exact ⟨p', by rw [readPredicate, hp'], hrests⟩
  · rename_i hnone
    split at hread
    · cases hread
    · rename_i st'' placed p hterm
      split at hread
      · rename_i hiri
        cases hread
        obtain ⟨p', hterm', hp⟩ := readTerm_twin h hclosed hr hterm
        refine ⟨p', ?_, hp⟩
        rw [readPredicate, eq_none_of_rel hrel hnone]
        dsimp only
        rw [hterm']
        dsimp only
        rw [if_pos hiri]
      · cases hread
termination_by (s.length, 1)

theorem readObjects_twin {st st' : State} {s u : List Char} (h : R s u)
    (hclosed : ClosesWithin R s) {subject predicate : Term} {v : Unit} {r : Shorter s}
    (hne : r.1 ≠ []) (hr : bound ≤ r.1.length)
    (hread : readObjects st subject predicate s = ⟨st', .ok (v, r)⟩) :
    ∃ r', readObjects st subject predicate u = ⟨st', .ok (v, r')⟩ ∧ Rests R r r' := by
  rw [readObjects] at hread
  split at hread
  · cases hread
  · rename_i st'' object p hterm
    have hfollows := ((within_readTerm st s).follows _ p (congrArg Reading.result hterm)).trans
      (follows_skip p.1)
    have hterm_twin := fun hp => readTerm_twin h hclosed hp hterm
    dsimp only at hread
    split at hread
    · rename_i hcomma
      cases hread
      obtain ⟨p', hterm', hp⟩ := hterm_twin (hr.trans (length_skip_le p.1))
      have hskip := skip_twin hR hp hne
      refine ⟨p'.skip, ?_, hskip⟩
      rw [readObjects, hterm']
      dsimp only
      rw [eq_none_of_rel (mark?_twin hR (by decide) hskip) hcomma]
    · rename_i q hcomma
      have hbehind := (hfollows.trans (.mark (by decide) hcomma)).trans (follows_skip q.1)
      have hlt : (skip q.1).length < s.length := (p.skip.trans q).skip.2
      split at hread
      · cases hread
      · rename_i last w z hobjects
        cases hread
        have hq_le : bound ≤ q.1.length :=
          (hr.trans (Nat.le_of_lt z.2)).trans (length_skip_le q.1)
        obtain ⟨p', hterm', hp⟩ :=
          hterm_twin ((hq_le.trans (Nat.le_of_lt q.2)).trans (length_skip_le p.1))
        have hskip := skip_twin hR hp q.ne_nil
        obtain ⟨q', hcomma', hq⟩ := exists_of_rel (mark?_twin hR (by decide) hskip) hcomma
        have hnext : R (skip q.1) (p'.skip.trans q').skip.1 := skip_twin hR hq z.ne_nil
        obtain ⟨z', hobjects', hz⟩ :=
          readObjects_twin hnext (hclosed.of_follows hbehind) hne hr hobjects
        refine ⟨(p'.skip.trans q').skip.trans z', ?_, hz⟩
        rw [readObjects, hterm']
        dsimp only
        rw [hcomma']
        dsimp only
        rw [hobjects']
termination_by (s.length, 1)

theorem readPredicates_twin {st st' : State} {s u : List Char} (h : R s u)
    (hclosed : ClosesWithin R s) {subject : Term} {v : Unit} {r : Shorter s} (hne : r.1 ≠ [])
    (hr : bound ≤ r.1.length) (hread : readPredicates st subject s = ⟨st', .ok (v, r)⟩) :
    ∃ r', readPredicates st subject u = ⟨st', .ok (v, r')⟩ ∧ Rests R r r' := by
  rw [readPredicates] at hread
  split at hread
  · cases hread
  · rename_i st'' predicate p hpredicate
    have hfollows := ((within_readPredicate st s).follows _ p
      (congrArg Reading.result hpredicate)).trans (follows_skip p.1)
    have hlt : (skip p.1).length < s.length := p.skip.2
    dsimp only at hread
    split at hread
    · cases hread
    · rename_i st₁ w q hobjects
      have hbehind := (hfollows.trans ((within_readObjects st'' subject predicate _).follows _ q
        (congrArg Reading.result hobjects))).trans (follows_skip q.1)
      -- the first predicate and its objects, once it is known that they stop early enough
      have hfirst : skip q.1 ≠ [] → bound ≤ (skip q.1).length →
          ∃ p' : Shorter u, ∃ q', readPredicate st u = ⟨st'', .ok (predicate, p')⟩ ∧
            readObjects st'' subject predicate (skip p'.1) = ⟨st₁, .ok (w, q')⟩ ∧
              R (skip q.1) (skip q'.1) := by
        intro hgap hle
        have hq_le : bound ≤ q.1.length := hle.trans (length_skip_le q.1)
        obtain ⟨p', hpredicate', hp⟩ := readPredicate_twin h hclosed
          ((hq_le.trans (Nat.le_of_lt q.2)).trans (length_skip_le p.1)) hpredicate
        obtain ⟨q', hobjects', hq⟩ := readObjects_twin (skip_twin hR hp q.ne_nil)
          (hclosed.of_follows hfollows) (ne_nil_of_skip hgap) hq_le hobjects
        exact ⟨p', q', hpredicate', hobjects', skip_twin hR hq hgap⟩
      split at hread
      · rename_i hsemicolon
        cases hread
        obtain ⟨p', q', hpredicate', hobjects', hend⟩ := hfirst hne hr
        refine ⟨(p'.skip.trans q').skip, ?_, hend⟩
        rw [readPredicates, hpredicate']
        dsimp only
        rw [hobjects']
        dsimp only
        rw [show mark? ';' (p'.skip.trans q').skip.1 = none from
          eq_none_of_rel (mark?_twin hR (by decide) hend) hsemicolon]
      · rename_i z hsemicolon
        have hmore := (hbehind.trans (.mark (by decide) hsemicolon)).trans
          (follows_skipSemicolons z.1)
        have hlt : (skipSemicolons z.1).length < s.length :=
          ((p.skip.trans q).skip.trans z).skipSemicolons.2
        have hfirst : bound ≤ (skipSemicolons z.1).length → _ := fun hle =>
          hfirst z.ne_nil ((hle.trans (length_skipSemicolons_le z.1)).trans (Nat.le_of_lt z.2))
        split at hread
        · rename_i hends
          cases hread
          obtain ⟨p', q', hpredicate', hobjects', hend⟩ := hfirst hr
          obtain ⟨z', hsemicolon', hz⟩ : ∃ z', mark? ';' (p'.skip.trans q').skip.1 = some z' ∧ _ :=
            exists_of_rel (mark?_twin hR (by decide) hend) hsemicolon
          have hnext : R (skipSemicolons z.1)
              ((p'.skip.trans q').skip.trans z').skipSemicolons.1 := skipSemicolons_twin hR hz hne
          refine ⟨_, ?_, hnext⟩
          rw [readPredicates, hpredicate']
          dsimp only
          rw [hobjects']
          dsimp only
          rw [hsemicolon']
          dsimp only
          rw [if_pos ((endsPredicates_twin hR hne hnext).trans hends)]
        · rename_i hends
          split at hread
          · cases hread
          · rename_i last w' y hpredicates
            cases hread
            obtain ⟨p', q', hpredicate', hobjects', hend⟩ := hfirst (hr.trans (Nat.le_of_lt y.2))
            obtain ⟨z', hsemicolon', hz⟩ :
                ∃ z', mark? ';' (p'.skip.trans q').skip.1 = some z' ∧ _ :=
              exists_of_rel (mark?_twin hR (by decide) hend) hsemicolon
            have hnext : R (skipSemicolons z.1)
                ((p'.skip.trans q').skip.trans z').skipSemicolons.1 :=
              skipSemicolons_twin hR hz y.ne_nil
            obtain ⟨y', hpredicates', hy⟩ :=
              readPredicates_twin hnext (hclosed.of_follows hmore) hne hr hpredicates
            refine ⟨((p'.skip.trans q').skip.trans z').skipSemicolons.trans y', ?_, hy⟩
            rw [readPredicates, hpredicate']
            dsimp only
            rw [hobjects']
            dsimp only
            rw [hsemicolon']
            dsimp only
            rw [if_neg ((endsPredicates_twin hR y.ne_nil hnext) ▸ hends), hpredicates']
termination_by (s.length, 2)

end

/-! ## Directives and statements -/

section Entries

variable {st st' : State} {s u : List Char}

theorem readPrefixDeclaration_twin {r : Shorter s} {r' : Shorter u} (h : Rests R r r') {v : Unit}
    {q : Shorter s} (hq : bound ≤ q.1.length)
    (hread : readPrefixDeclaration st r = ⟨st', .ok (v, q)⟩) :
    ∃ q', readPrefixDeclaration st r' = ⟨st', .ok (v, q')⟩ ∧ Rests R q q' := by
  rw [readPrefixDeclaration] at hread
  split at hread
  · cases hread
  · rename_i w p hcolon
    have hne : skip r.1 ≠ [] := by
      intro hnil
      apply ne_nil_of_expect hcolon
      change (skip r.1).dropWhile isNameChar = []
      rw [hnil]
      rfl
    dsimp only at hread
    split at hread
    · cases hread
    · rename_i text z hreference
      cases hread
      have hp_le : bound ≤ p.1.length :=
        (hq.trans (Nat.le_of_lt z.2)).trans (length_skip_le p.1)
      have hskip : R r.skip.1 r'.skip.1 := skip_twin hR h hne
      have hdrop : Rests R
          (⟨r.skip.1.dropWhile isNameChar,
            Nat.lt_of_le_of_lt (length_dropWhile_le _ _) r.skip.2⟩ : Shorter s)
          (⟨r'.skip.1.dropWhile isNameChar,
            Nat.lt_of_le_of_lt (length_dropWhile_le _ _) r'.skip.2⟩ : Shorter u) :=
        dropWhile_twin hR isClass_isNameChar hskip
      have hlabel : r'.skip.1.takeWhile isNameChar = r.skip.1.takeWhile isNameChar :=
        (takeWhile_twin hR isClass_isNameChar hskip).2
          (hp_le.trans (Nat.le_of_lt (length_lt_of_expect hcolon)))
      obtain ⟨p', hcolon', hp⟩ := expect_twin hR (by decide) hdrop hcolon
      have hnext : R p.skip.1 p'.skip.1 := skip_twin hR hp z.ne_nil
      obtain ⟨⟨text', z'⟩, hreference', hz, hsame⟩ :=
        exists_of_rel (reference?_twin hR hnext) hreference
      obtain rfl : text' = text := hsame hq
      refine ⟨p'.skip.trans z', ?_, hz⟩
      rw [readPrefixDeclaration]
      dsimp only
      rw [hcolon']
      dsimp only
      rw [hreference', hlabel]

theorem readBaseDeclaration_twin {r : Shorter s} {r' : Shorter u} (h : Rests R r r') {v : Unit}
    {q : Shorter s} (hq : bound ≤ q.1.length)
    (hread : readBaseDeclaration st r = ⟨st', .ok (v, q)⟩) :
    ∃ q', readBaseDeclaration st r' = ⟨st', .ok (v, q')⟩ ∧ Rests R q q' := by
  rw [readBaseDeclaration] at hread
  split at hread
  · cases hread
  · rename_i text p hreference
    cases hread
    have hskip : R r.skip.1 r'.skip.1 := skip_twin hR h p.ne_nil
    obtain ⟨⟨text', p'⟩, hreference', hp, hsame⟩ :=
      exists_of_rel (reference?_twin hR hskip) hreference
    obtain rfl : text' = text := hsame hq
    refine ⟨r'.skip.trans p', ?_, hp⟩
    rw [readBaseDeclaration, hreference']

theorem readDirective_twin (h : R s u) {v : Unit} {r : Shorter s} (hr : bound ≤ r.1.length)
    (hread : readDirective st s = ⟨st', .ok (v, r)⟩) :
    ∃ r', readDirective st u = ⟨st', .ok (v, r')⟩ ∧ Rests R r r' := by
  cases hword : word? "@prefix".toList s with
  | some p =>
    rw [readDirective, hword] at hread
    dsimp only at hread
    split at hread
    · cases hread
    · rename_i st'' w q hdeclaration
      obtain ⟨rfl, hdot⟩ := Reading.mk.inj hread
      have hq_le : bound ≤ q.1.length := le_of_expect_skip hr hdot
      obtain ⟨p', hword', hp⟩ := word?_twin_of_some hR h
        (hq_le.trans (le_of_readPrefixDeclaration hdeclaration)) hword
      obtain ⟨q', hdeclaration', hq⟩ := readPrefixDeclaration_twin hR hp hq_le hdeclaration
      obtain ⟨r', hdot', hr⟩ := expect_skip_twin hR hq hdot
      refine ⟨r', ?_, hr⟩
      rw [readDirective, hword']
      dsimp only
      rw [hdeclaration']
      dsimp only
      rw [hdot']
  | none =>
    cases hword₂ : word? "@base".toList s with
    | some p =>
      rw [readDirective, hword, hword₂] at hread
      dsimp only at hread
      split at hread
      · cases hread
      · rename_i st'' w q hdeclaration
        obtain ⟨rfl, hdot⟩ := Reading.mk.inj hread
        have hq_le : bound ≤ q.1.length := le_of_expect_skip hr hdot
        obtain ⟨p', hword₂', hp⟩ := word?_twin_of_some hR h
          (hq_le.trans (le_of_readBaseDeclaration hdeclaration)) hword₂
        -- the other text starts with the whole word too, and so not with the first one
        have hword' : word? "@prefix".toList u = none := by
          rw [eq_append_of_word? hword₂']
          exact word?_eq_none_of_append (by simp)
        obtain ⟨q', hdeclaration', hq⟩ := readBaseDeclaration_twin hR hp hq_le hdeclaration
        obtain ⟨r', hdot', hr⟩ := expect_skip_twin hR hq hdot
        refine ⟨r', ?_, hr⟩
        rw [readDirective, hword', hword₂']
        dsimp only
        rw [hdeclaration']
        dsimp only
        rw [hdot']
    | none =>
      rw [readDirective, hword, hword₂] at hread
      cases hread

theorem readBareDirective_twin (h : R s u) {v : Unit} {r : Shorter s} (hr : bound ≤ r.1.length)
    (hread : readBareDirective st s = ⟨st', .ok (v, r)⟩) :
    ∃ r', readBareDirective st u = ⟨st', .ok (v, r')⟩ ∧ Rests R r r' := by
  rw [readBareDirective] at hread ⊢
  split at hread
  · rename_i p hp
    obtain ⟨p', hp', hrests⟩ :=
      word?_twin_of_some hR h (hr.trans (le_of_readPrefixDeclaration hread)) hp
    rw [hp']
    exact readPrefixDeclaration_twin hR hrests hr hread
  · split at hread
    · rename_i p hp
      obtain ⟨p', hp', hrests⟩ :=
        word?_twin_of_some hR h (hr.trans (le_of_readBaseDeclaration hread)) hp
      have hother : word? "PREFIX".toList u = none := by
        rw [eq_append_of_word? hp']
        exact word?_eq_none_of_append (by simp)
      rw [hother, hp']
      exact readBaseDeclaration_twin hR hrests hr hread
    · cases hread

theorem readStatement_twin (h : R s u) (hclosed : ClosesWithin R s) {v : Unit} {r : Shorter s}
    (hr : bound ≤ r.1.length) (hread : readStatement st s = ⟨st', .ok (v, r)⟩) :
    ∃ r', readStatement st u = ⟨st', .ok (v, r')⟩ ∧ Rests R r r' := by
  rw [readStatement] at hread
  split at hread
  · cases hread
  · rename_i st'' subject p hterm
    have hfollows := ((within_readTerm st s).follows _ p (congrArg Reading.result hterm)).trans
      (follows_skip p.1)
    -- whether predicates may be missing shows at two marks, which are the same in both texts
    have hopens : ∀ {t}, R (skip p.1) t →
        (u.head? = some '[' ∧ t.head? = some '.' ↔
          s.head? = some '[' ∧ (skip p.1).head? = some '.') :=
      fun ht => and_congr (hR.head?_iff (by decide) h) (hR.head?_iff (by decide) ht)
    split at hread
    · rename_i hindividual
      split at hread
      · rename_i hbracket
        obtain ⟨rfl, hdot⟩ := Reading.mk.inj hread
        obtain ⟨p', hterm', hp⟩ := readTerm_twin hR h hclosed (le_of_expect_skip hr hdot) hterm
        obtain ⟨r', hdot', hr⟩ := expect_skip_twin hR hp hdot
        have hskip := skip_twin hR hp (ne_nil_of_expect hdot)
        refine ⟨r', ?_, hr⟩
        rw [readStatement, hterm']
        dsimp only
        rw [if_pos hindividual, if_pos ((hopens hskip).mpr hbracket), hdot']
      · rename_i hbracket
        split at hread
        · cases hread
        · rename_i last w q hpredicates
          obtain ⟨rfl, hdot⟩ := Reading.mk.inj hread
          have hq_le : bound ≤ q.1.length := le_of_expect_skip (r := p.skip.trans q) hr hdot
          obtain ⟨p', hterm', hp⟩ := readTerm_twin hR h hclosed
            ((hq_le.trans (Nat.le_of_lt q.2)).trans (length_skip_le p.1)) hterm
          have hskip := skip_twin hR hp q.ne_nil
          obtain ⟨q', hpredicates', hq⟩ := readPredicates_twin hR hskip
            (hclosed.of_follows hfollows) (ne_nil_of_skip (ne_nil_of_expect hdot)) hq_le hpredicates
          have hbehind : Rests R (p.skip.trans q) (p'.skip.trans q') := hq
          obtain ⟨r', hdot', hr⟩ := expect_skip_twin hR hbehind hdot
          refine ⟨r', ?_, hr⟩
          rw [readStatement, hterm']
          dsimp only
          rw [if_pos hindividual, if_neg (mt (hopens hskip).mp hbracket), hpredicates']
          dsimp only
          rw [hdot']
    · cases hread

/-! ## Keywords -/

/-- A keyword is not seen anew, unless it stands alone at the end of the text. -/
theorem startsWithKeyword_twin {keyword : List Char} (hkeyword : '\n' ∉ keyword.map Char.toLower)
    (hs : s.map Char.toLower ≠ keyword.map Char.toLower) (h : R s u) :
    startsWithKeyword keyword u = startsWithKeyword keyword s := by
  induction keyword generalizing s u with
  | nil =>
    cases s with
    | nil => exact absurd rfl hs
    | cons c s =>
      obtain ⟨d, v, rfl, -, hcase, -⟩ := hR.cons h
      have hspace : isWhiteSpace d = isWhiteSpace c := by
        rw [← isWhiteSpace_toLower d, hcase, isWhiteSpace_toLower]
      simp [startsWithKeyword, hspace]
  | cons k keyword ih =>
    rw [List.map_cons, List.mem_cons, not_or] at hkeyword
    cases s with
    | nil =>
      cases u with
      | nil => rfl
      | cons d v =>
        obtain rfl := hR.nil h d rfl
        have hline : ('\n'.toLower == k.toLower) = false := beq_eq_false_iff_ne.mpr hkeyword.1
        rw [startsWithKeyword_cons, hline]
        rfl
    | cons c s =>
      obtain ⟨d, v, rfl, hv, hcase, -⟩ := hR.cons h
      rw [startsWithKeyword_cons, startsWithKeyword_cons, hcase]
      by_cases hletter : c.toLower = k.toLower
      · rw [List.map_cons, List.map_cons, hletter] at hs
        rw [ih hkeyword.2 (fun heq => hs (by rw [heq])) hv]
      · rw [beq_eq_false_iff_ne.mpr hletter, Bool.false_and, Bool.false_and]

theorem readEntry_twin (h : R s u) (hclosed : ClosesWithin R s) {v : Unit} {r : Shorter s}
    (hr : bound ≤ r.1.length) (hread : readEntry st s = ⟨st', .ok (v, r)⟩) :
    ∃ r', readEntry st u = ⟨st', .ok (v, r')⟩ ∧ Rests R r r' := by
  have hat : u.head? = some '@' ↔ s.head? = some '@' := hR.head?_iff (by decide) h
  rw [readEntry] at hread ⊢
  split at hread
  · rename_i hs
    rw [if_pos (hat.mpr hs)]
    exact readDirective_twin hR h hr hread
  · rename_i hs
    rw [if_neg (mt hat.mp hs)]
    split at hread
    · rename_i hkeyword
      have hseen : ∀ {keyword : List Char}, '\n' ∉ keyword.map Char.toLower →
          startsWithKeyword keyword s = true → startsWithKeyword keyword u = true := by
        intro keyword hline hs
        rw [startsWithKeyword_twin hR hline (ne_of_startsWithKeyword hs) h, hs]
      rw [if_pos (Bool.or_eq_true_iff.mpr ((Bool.or_eq_true_iff.mp hkeyword).imp
        (hseen (by decide)) (hseen (by decide))))]
      exact readBareDirective_twin hR h hr hread
    · rename_i hkeyword
      have hdot := dot_mem_of_readStatement hread
      -- a text with a dot in it is not a keyword that stands alone
      have hsame : ∀ {keyword : List Char}, '\n' ∉ keyword.map Char.toLower →
          '.' ∉ keyword.map Char.toLower →
            startsWithKeyword keyword u = startsWithKeyword keyword s := by
        intro keyword hline hnodot
        exact startsWithKeyword_twin hR hline
          (fun heq => hnodot (heq ▸ List.mem_map_of_mem (f := Char.toLower) hdot)) h
      rw [hsame (by decide) (by decide), hsame (by decide) (by decide), if_neg hkeyword]
      exact readStatement_twin hR h hclosed hr hread

end Entries

end Twins

/-! ## Reading up to a place -/

/-- Reading a text comes, through whole entries, to a place in it where the next entry starts. -/
inductive ReadsUpTo : State → List Char → State → List Char → Prop where
  | here {st : State} {s t : List Char} (hskip : skip s = t) (hne : t ≠ []) : ReadsUpTo st s st t
  | entry {st st' st'' : State} {s text t : List Char} {r : Shorter text} (hskip : skip s = text)
      (hne : text ≠ []) (hread : readEntry st text = ⟨st', .ok ((), r)⟩)
      (hrest : ReadsUpTo st' r.1 st'' t) : ReadsUpTo st s st'' t

namespace ReadsUpTo

variable {st st' : State} {s u t : List Char}

theorem ne_nil (h : ReadsUpTo st s st' t) : t ≠ [] := by
  induction h with
  | here hskip hne => exact hne
  | entry hskip hne hread hrest ih => exact ih

theorem suffix (h : ReadsUpTo st s st' t) : t <:+ s := by
  induction h with
  | @here st s t hskip hne => exact hskip ▸ (follows_skip s).suffix
  | @entry st st' st'' s text t r hskip hne hread hrest ih =>
    have hr := (within_readEntry st text).follows _ r (congrArg Reading.result hread)
    exact (ih.trans hr.suffix).trans (hskip ▸ (follows_skip s).suffix)

/-- What halts the reading at the place halts it in the text. -/
theorem readEntries_eq (h : ReadsUpTo st s st' t) {last : State} {halt : Halt}
    (hread : readEntry st' t = ⟨last, .error halt⟩) : readEntries st s = (last, .error halt) := by
  induction h with
  | here hskip hne => exact readEntries_of_halt hskip hne hread
  | entry hskip hne hentry _ ih => rw [readEntries_of_readEntry hskip hne hentry, ih hread]

/-- In a text that is read alike, reading comes to the place that stands for it, in the same
state. -/
theorem twin {R : List Char → List Char → Prop} (h : ReadsUpTo st s st' t)
    (hR : Twin t.length R) (hclosed : ClosesWithin R s) (hs : R s u) :
    ∃ t', ReadsUpTo st u st' t' ∧ R t t' := by
  induction h generalizing u with
  | @here st s t hskip hne =>
    subst hskip
    have hgap := skip_twin hR hs hne
    obtain ⟨c, rest, hcons⟩ := List.exists_cons_of_ne_nil hne
    rw [hcons] at hgap
    obtain ⟨d, v, hgap', -⟩ := hR.cons hgap
    rw [← hcons] at hgap
    exact ⟨skip u, .here rfl (by rw [hgap']; exact List.cons_ne_nil d v), hgap⟩
  | @entry st st' st'' s text t r hskip hne hread hrest ih =>
    subst hskip
    have hfollows := (follows_skip s).trans
      ((within_readEntry st (skip s)).follows _ r (congrArg Reading.result hread))
    obtain ⟨r', hread', hrests⟩ := readEntry_twin hR (skip_twin hR hs hne)
      (hclosed.of_follows (follows_skip s)) hrest.suffix.length_le hread
    obtain ⟨t', hplace, ht⟩ := ih hR (hclosed.of_follows hfollows) hrests
    exact ⟨t', .entry rfl r'.ne_nil hread' hplace, ht⟩

end ReadsUpTo

end GraphConformance.Turtle
