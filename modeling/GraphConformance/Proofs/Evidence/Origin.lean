import GraphConformance.Proofs.Evidence.Agreement
import GraphConformance.Proofs.Knowledge.Questions

/-!
# Where a failure was found

The failure of a restriction shows the path of classes on which it was found: its class is the
innermost one, and its explanation ends with their names (`Failure.Shows`). A verdict is found once
and kept, so the path is that of the first translation of the pair (`Evidence.FoundOn`), whatever
class asks for it later.

Each verdict in a memory that occurs was found on some path by such a memory
(`exists_foundOn_of_reached`). So when the translation of a class fails, the first of its
definitions to fail gives the failure, and where that definition is a restriction the failure names
the class or shows the path on which the restriction was translated before
(`names_of_translate_error`).
-/

set_option autoImplicit false

namespace GraphConformance

open Vocabulary Evidence

/-! ## Failures and paths -/

/-- The failure has the innermost class of the path, and its explanation ends with the path. -/
structure Failure.Shows (f : Failure) (path : ClassPath) : Prop where
  inClass : f.inClass = path.top?
  explanation : ∃ reason, f.explanation = path.explain reason

/-- The failure has the class, and the path in its explanation ends in the name of the class. -/
structure Failure.Names (f : Failure) (c : Term) : Prop where
  inClass : f.inClass = some c
  explanation : ∃ reason outer, f.explanation = reason ++ " (in " ++ (outer ++ c.shortName) ++ ")"

namespace ClassPath

variable (path : ClassPath)

theorem top?_push (c : Term) : (path.push c).top? = some c := List.getLast?_concat

/-- The name of the innermost class stands last. -/
theorem exists_display_push (c : Term) : ∃ outer, (path.push c).display = outer ++ c.shortName := by
  have hmap : (path.push c).classes.map Term.shortName =
      path.classes.map Term.shortName ++ [c.shortName] := List.map_append
  rw [display, hmap]
  by_cases hne : path.classes.map Term.shortName = []
  · refine ⟨"", ?_⟩
    rw [hne, List.nil_append, String.intercalate_singleton, String.empty_append]
  · refine ⟨" > ".intercalate (path.classes.map Term.shortName) ++ " > ", ?_⟩
    rw [String.intercalate_append_of_ne_nil hne (by simp), String.intercalate_singleton]

theorem explain_push (c : Term) (reason : String) :
    (path.push c).explain reason = reason ++ " (in " ++ (path.push c).display ++ ")" := by
  rw [explain]
  split
  · rename_i h
    exact absurd h (by simp [push])
  · rfl

theorem shows_failure (kind : FailureKind Failure) (x : Term) (reason : String) :
    (path.failure kind x reason).Shows path :=
  ⟨rfl, reason, rfl⟩

end ClassPath

/-- What is found inside a class names it. -/
theorem Failure.Shows.names {f : Failure} {path : ClassPath} {c : Term}
    (h : f.Shows (path.push c)) : f.Names c := by
  refine ⟨h.inClass.trans (path.top?_push c), ?_⟩
  obtain ⟨reason, hreason⟩ := h.explanation
  obtain ⟨outer, houter⟩ := path.exists_display_push c
  exact ⟨reason, outer, by rw [hreason, ClassPath.explain_push, houter]⟩

/-- The definitions of a class are what decides about the individual: it is a member of the class,
or the class has an equivalent. -/
structure Knowledge.Expands (k : Knowledge) (c x : Term) : Prop where
  individual : x.isIndividual = true
  mentioned : k.store.mentions x = true
  member : k.IsMember x c ∨ k.store.equivalentClasses c ≠ []

namespace Evidence

/-! ## Failures of restrictions -/

section Restrictions

variable {r : Reasoner} {path : ClassPath} {p x : Term} {f : Failure} {m : Memo}

theorem shows_of_eq {α : Type} {kind : FailureKind Failure} {reason : String}
    (h : (.error (path.failure kind x reason) : Except Failure α) = .error f) : f.Shows path := by
  rw [← Except.error.inj h]
  exact path.shows_failure kind x reason

theorem shows_of_edges {edges : Except Knowledge.QueryError (List Edge)}
    (h : (match edges with
      | .ok edges => .ok ((edges.filter (·.1 = p)).map Prod.snd)
      | .error e => .error (path.queryFailure e x)) = (.error f : Except Failure (List Term))) :
    f.Shows path := by
  cases edges with
  | ok edges => exact absurd h (by simp)
  | error e => exact shows_of_eq h

theorem shows_of_values (h : values r path p x = .error f) : f.Shows path := by
  cases x with
  | literal l => exact absurd h (by simp [values])
  | iri i => exact shows_of_edges h
  | blank b => exact shows_of_edges h

theorem shows_of_onValues {work : List Term → Work}
    (hwork : ∀ vs, (work vs m).1 = .error f → f.Shows path)
    (h : (onValues r path p x work m).1 = .error f) : f.Shows path := by
  rw [onValues] at h
  split at h
  · exact hwork _ h
  · rename_i failure hvalues
    rw [← Except.error.inj h]
    exact shows_of_values hvalues

theorem shows_of_checkSome {work : Term → Work} {filler : Expression} {vs : List Term}
    (h : (checkSome path work p filler x vs m).1 = .error f) : f.Shows path := by
  rw [checkSome] at h
  split at h
  · exact absurd h (by simp)
  · exact shows_of_eq h

theorem shows_of_checkOnly {work : Term → Work} {filler : Expression} {vs : List Term}
    (h : (checkOnly path work p filler x vs m).1 = .error f) : f.Shows path := by
  rw [checkOnly] at h
  dsimp only at h
  split at h
  · exact absurd h (by simp)
  · exact shows_of_eq h

theorem shows_of_checkCount {restriction : Restriction} {n : Nat} {vs : List Term}
    (h : (done (checkCount path restriction p n x vs) m).1 = .error f) : f.Shows path := by
  rw [done, checkCount] at h
  dsimp only at h
  split at h
  · exact shows_of_eq h
  · split at h
    · exact shows_of_eq h
    · exact absurd h (by simp)

theorem shows_of_checkSelf {vs : List Term} (h : (done (checkSelf path p x vs) m).1 = .error f) :
    f.Shows path := by
  rw [done, checkSelf] at h
  dsimp only at h
  split at h
  · exact absurd h (by simp)
  · exact shows_of_eq h

/-- A restriction that was not translated before shows the path on which it is. -/
theorem shows_of_unknown {depth : Nat} {e : Expression} (he : e.needsValues = true)
    (hm : m.known (e, x) = none) (h : (translateWithin r depth path e x m).1 = .error f) :
    f.Shows path := by
  rw [translateWithin_eq_evaluate] at h
  cases e with
  | someOf p filler =>
    rw [evaluate, memoised_of_none hm] at h
    exact shows_of_onValues (fun _ => shows_of_checkSome) h
  | onlyOf p filler =>
    rw [evaluate, memoised_of_none hm] at h
    exact shows_of_onValues (fun _ => shows_of_checkOnly) h
  | atLeast p n =>
    rw [evaluate, memoised_of_none hm] at h
    exact shows_of_onValues (fun _ => shows_of_checkCount) h
  | atMost p n =>
    rw [evaluate, memoised_of_none hm] at h
    exact shows_of_onValues (fun _ => shows_of_checkCount) h
  | exactly p n =>
    rw [evaluate, memoised_of_none hm] at h
    exact shows_of_onValues (fun _ => shows_of_checkCount) h
  | selfOf p =>
    rw [evaluate, memoised_of_none hm] at h
    exact shows_of_onValues (fun _ => shows_of_checkSelf) h
  | _ => exact absurd he (by simp [Expression.needsValues])

end Restrictions

/-! ## Memories that occur -/

/-- The memories that occur while pairs are translated one after another, from nothing on. -/
inductive Memo.Reached (r : Reasoner) : Memo → Prop where
  | empty : Reached r .empty
  | start {m : Memo} {p : Expression × Term} (h : Reached r m) (hp : m.known p = none) :
      Reached r (m.start p)
  | translate {m : Memo} (h : Reached r m) (depth : Nat) (path : ClassPath) (e : Expression)
      (x : Term) : Reached r (translateWithin r depth path e x m).2

/-- The second memory has every verdict of the first one. -/
def Memo.Below (m m' : Memo) : Prop :=
  ∀ {p verdict}, m.known p = some (.finished verdict) → m'.known p = some (.finished verdict)

/-- The verdict for a pair was found on the path: a memory that did not know the pair was asked for
it there, and what it had found by then is in the given memory. -/
def FoundOn (r : Reasoner) (m : Memo) (p : Expression × Term) (verdict : Verdict)
    (path : ClassPath) : Prop :=
  ∃ depth m₀, Memo.Reached r m₀ ∧ m₀.known p = none ∧
    (translateWithin r depth path p.1 p.2 m₀).1 = verdict ∧
      (translateWithin r depth path p.1 p.2 m₀).2.Below m

/-- Each verdict of the memory was found on some path. -/
def Memo.Traced (m : Memo) (r : Reasoner) : Prop :=
  ∀ p verdict, m.known p = some (.finished verdict) → ∃ path, FoundOn r m p verdict path

section Traced

variable {r : Reasoner} {m m' : Memo} {p : Expression × Term}

theorem Memo.Below.trans {m₁ m₂ m₃ : Memo} (h : m₁.Below m₂) (h' : m₂.Below m₃) : m₁.Below m₃ :=
  fun hp => h' (h hp)

theorem Memo.Grows.below (h : m.Grows m') : m.Below m' := fun hp => h.kept hp

theorem FoundOn.mono {verdict : Verdict} {path : ClassPath} (h : FoundOn r m p verdict path)
    (hbelow : m.Below m') : FoundOn r m' p verdict path := by
  obtain ⟨depth, m₀, hreached, hunknown, hverdict, hkept⟩ := h
  exact ⟨depth, m₀, hreached, hunknown, hverdict, hkept.trans hbelow⟩

/-- A memory that only counted or marked something since is traced as before. -/
theorem Memo.Traced.of_below (h : m.Traced r) (hbelow : m.Below m') (hback : m'.Below m) :
    m'.Traced r := by
  intro p verdict hp
  obtain ⟨path, hfound⟩ := h p verdict (hback hp)
  exact ⟨path, hfound.mono hbelow⟩

theorem below_start (hp : m.known p = none) : m.Below (m.start p) := by
  intro q verdict hq
  have hne : q ≠ p := by
    rintro rfl
    exact absurd (hp.symm.trans hq) (by simp)
  rw [Memo.known_start, if_neg hne, hq]

theorem start_below : (m.start p).Below m := by
  intro q verdict hq
  rw [Memo.known_start] at hq
  by_cases heq : q = p
  · rw [if_pos heq] at hq
    exact absurd hq (by simp)
  · rwa [if_neg heq] at hq

/-- To keep the verdict of a pair that is in progress loses no verdict. -/
theorem below_finish {e : Expression} {x : Term} (hp : m.known (e, x) = some .inProgress)
    (verdict : Verdict) : m.Below (m.finish e x verdict) := by
  intro q other hq
  have hne : q ≠ (e, x) := by
    rintro rfl
    exact absurd (hp.symm.trans hq) (by simp)
  rw [Memo.known_finish, if_neg hne, hq]

/-- One translation keeps a memory traced: what it adds was found by itself or by the translations
inside it. -/
theorem traced_translateWithin (depth : Nat) (path : ClassPath) (e : Expression) (x : Term)
    (hreached : m.Reached r) (htraced : m.Traced r) :
    (translateWithin r depth path e x m).2.Traced r := by
  induction depth, e, x using translateWithin_induction r generalizing path m with
  | round depth e x hpart hdefinition =>
    obtain ⟨work, hwork, hround⟩ := translateWithin_eq r depth path e x
    -- inside a round the memory grows, occurs and is traced
    have hinside : (moving (R := fun m m' => m.Grows m' ∧
        (m.Reached r → m.Traced r → m'.Reached r ∧ m'.Traced r))
        (fun m => ⟨.refl m, fun h h' => ⟨h, h'⟩⟩)
        (fun h h' => ⟨h.1.trans h'.1, fun hr ht => h'.2 (h.2 hr ht).1 (h.2 hr ht).2⟩)).Rel
          (outcome work) (outcome work) := by
      rw [hround]
      apply Simulation.round
      · intro e' x' h' n
        exact ⟨grows_translateWithin r depth path e' x' n,
          fun hr ht => ⟨hr.translate depth path e' x', hpart e' x' h' path hr ht⟩⟩
      · intro d h' n
        refine ⟨grows_unfoldWithin r depth _ d x n, ?_⟩
        intro hr ht
        cases depth with
        | zero => exact ⟨hr, ht⟩
        | succ below =>
          exact ⟨hr.translate below _ d x, hdefinition below d rfl h' _ hr ht⟩
    cases hknown : m.known (e, x) with
    | some entry =>
      -- a look-up only counts
      rw [hwork]
      cases entry with
      | inProgress =>
        rw [memoised_of_inProgress hknown]
        exact htraced.of_below id id
      | finished verdict =>
        rw [memoised_of_finished hknown]
        exact htraced.of_below id id
    | none =>
      obtain ⟨hgrows, hkeeps⟩ := hinside (m.start (e, x))
      have hstart : (m.start (e, x)).Traced r := htraced.of_below (below_start hknown) start_below
      obtain ⟨-, hworked⟩ := hkeeps (hreached.start hknown) hstart
      have hmarked : (work (m.start (e, x))).2.known (e, x) = some .inProgress := by
        apply hgrows.kept
        rw [Memo.known_start, if_pos rfl]
      intro q verdict hq
      have hresult := hq
      rw [hwork, memoised_of_none hknown, Memo.known_finish] at hresult
      by_cases heq : q = (e, x)
      · subst heq
        rw [if_pos rfl] at hresult
        refine ⟨path, depth, m, hreached, hknown, ?_, id⟩
        rw [hwork, memoised_of_none hknown]
        exact Entry.finished.inj (Option.some.inj hresult)
      · rw [if_neg heq] at hresult
        obtain ⟨other, hfound⟩ := hworked q verdict hresult
        rw [hwork, memoised_of_none hknown]
        exact ⟨other, hfound.mono (below_finish hmarked _)⟩

/-- Each verdict in a memory that occurs was found on some path. -/
theorem exists_foundOn_of_reached (h : m.Reached r) : m.Traced r := by
  induction h with
  | empty =>
    intro p verdict hp
    rw [Memo.known_empty] at hp
    exact absurd hp (by simp)
  | start h hp ih => exact ih.of_below (below_start hp) start_below
  | translate h depth path e x ih => exact traced_translateWithin depth path e x h ih

/-- A restriction that was translated before and fails was found on some path, which its failure
shows. -/
theorem exists_foundOn_shows {depth : Nat} {path : ClassPath} {e : Expression} {x : Term}
    {f : Failure} (hreached : m.Reached r) (he : e.needsValues = true)
    (hold : m.known (e, x) ≠ none) (h : (translateWithin r depth path e x m).1 = .error f) :
    ∃ other, FoundOn r m (e, x) (.error f) other ∧ f.Shows other := by
  obtain ⟨entry, hentry⟩ := Option.ne_none_iff_exists'.mp hold
  obtain ⟨work, hwork, -⟩ := translateWithin_eq r depth path e x
  cases entry with
  | inProgress =>
    -- a pair in progress does not fail
    rw [hwork, memoised_of_inProgress hentry] at h
    exact absurd h (by simp)
  | finished verdict =>
    rw [hwork, memoised_of_finished hentry] at h
    obtain rfl : verdict = .error f := h
    obtain ⟨other, hfound⟩ := exists_foundOn_of_reached hreached (e, x) _ hentry
    obtain ⟨_, m₁, -, hunknown, hverdict, -⟩ := id hfound
    exact ⟨other, hfound, shows_of_unknown he hunknown hverdict⟩

end Traced

/-! ## The definition that fails -/

/-- When not everything succeeds, the first work to fail ends it. -/
theorem exists_of_every_eq_error {works : List Work} {f : Failure} {m m' : Memo}
    (h : every works m = (.error f, m')) :
    ∃ before work after found m₁, works = before ++ work :: after ∧
      every before m = (.ok found, m₁) ∧ work m₁ = (.error f, m') := by
  -- the first work fails, or it succeeds and the failure is among the others
  induction works generalizing m with
  | nil => exact absurd h (by simp [every])
  | cons first works ih =>
    rw [every] at h
    cases hfirst : first m with
    | mk verdict m₂ =>
      rw [hfirst] at h
      cases verdict with
      | error failure =>
        exact ⟨[], first, works, [], m, rfl, rfl, by rw [hfirst, ← h]⟩
      | ok found =>
        cases hrest : every works m₂ with
        | mk rest m₃ =>
          simp only [hrest] at h
          cases rest with
          | ok more => exact absurd (Prod.mk.inj h).1 (by simp)
          | error failure =>
            obtain ⟨before, work, after, found', m₁, rfl, hbefore, hwork⟩ := ih (hrest.trans h)
            refine ⟨first :: before, work, after, Distinct.union found found', m₁, rfl, ?_, hwork⟩
            simp only [every, hfirst, hbefore]

/-- When a membership does not get all of its definitions, the first of them to fail ends it. -/
theorem exists_of_definitions_eq_error {membership : List Triple} {unfold : Expression → Work}
    {ds : List Expression} {f : Failure} {m m' : Memo}
    (h : every (done (.ok membership) :: ds.map unfold) m = (.error f, m')) :
    ∃ before e after found m₁, ds = before ++ e :: after ∧
      every (done (.ok membership) :: before.map unfold) m = (.ok found, m₁) ∧
        unfold e m₁ = (.error f, m') := by
  obtain ⟨works, work, rest, found, m₁, hworks, hbefore, hwork⟩ := exists_of_every_eq_error h
  cases works with
  | nil =>
    -- the membership itself does not fail
    rw [← (List.cons.inj hworks).1, done] at hwork
    exact absurd (Prod.mk.inj hwork).1 (by simp)
  | cons first works =>
    obtain ⟨hfirst, hmap⟩ := List.cons.inj hworks
    obtain ⟨before, others, hds, hworks', hothers⟩ := List.map_eq_append_iff.mp hmap
    obtain ⟨e, after, hsplit, he, -⟩ := List.map_eq_cons_iff.mp hothers
    subst hfirst hworks' hsplit he
    exact ⟨before, e, after, found, m₁, hds, hbefore, hwork⟩

/-- From a memory m₀ that did not know its pair with the individual, a class was asked for on the
path; its definitions before e succeeded and left the memory m. -/
structure ComesTo (r : Reasoner) (depth : Nat) (path : ClassPath) (c x : Term) (m₀ : Memo)
    (e : Expression) (m : Memo) : Prop where
  reached : m₀.Reached r
  unknown : m₀.known (.concept c, x) = none
  earlier : ∃ before after membership found,
    r.superClasses c ++ r.equivalentClasses c = before ++ e :: after ∧
      every (done (.ok membership) ::
          before.map fun d => translateWithin r depth (path.push c) d x)
        (m₀.start (.concept c, x)) = (.ok found, m)

section ComesTo

variable {r : Reasoner} {depth : Nat} {path : ClassPath} {c x : Term} {e : Expression}
  {m₀ m : Memo} {f : Failure}

/-- What each work keeps is kept by all of them together. -/
theorem moves_every {R : Memo → Memo → Prop} (refl : ∀ m, R m m)
    (trans : ∀ {m₁ m₂ m₃}, R m₁ m₂ → R m₂ m₃ → R m₁ m₃) {works : List Work}
    (h : ∀ work ∈ works, Moves R (outcome work)) : Moves R (outcome (every works)) := by
  rw [outcome_every]
  exact (moving refl trans).findAll (g := outcome) h

theorem moves_definitions {R : Memo → Memo → Prop} (refl : ∀ m, R m m)
    (trans : ∀ {m₁ m₂ m₃}, R m₁ m₂ → R m₂ m₃ → R m₁ m₃) {verdict : Verdict}
    {unfold : Expression → Work} {ds : List Expression}
    (h : ∀ d ∈ ds, Moves R (outcome (unfold d))) :
    Moves R (outcome (every (done verdict :: ds.map unfold))) := by
  apply moves_every refl trans
  intro work hwork
  rcases List.mem_cons.mp hwork with rfl | hwork
  · exact refl
  · obtain ⟨d, hd, rfl⟩ := List.mem_map.mp hwork
    exact h d hd

/-- The memory with which a definition is asked for occurs. -/
theorem ComesTo.reached_last (h : ComesTo r depth path c x m₀ e m) : m.Reached r := by
  obtain ⟨before, after, membership, found, -, hevery⟩ := h.earlier
  have hmoves : Moves (fun m m' => m.Reached r → m'.Reached r)
      (outcome (every (done (.ok membership) ::
        before.map fun d => translateWithin r depth (path.push c) d x))) := by
    apply moves_definitions (R := fun m m' => m.Reached r → m'.Reached r) (fun _ => id)
      (fun h h' => h' ∘ h)
    exact fun d _ n hn => hn.translate depth (path.push c) d x
  have := hmoves (m₀.start (.concept c, x)) (h.reached.start h.unknown)
  rwa [outcome, hevery] at this

/-- A class of which an individual is a member, or that has an equivalent, is as good as its
definitions. -/
theorem checkClass_eq_every (path : ClassPath) (unfold : ClassPath → Expression → Term → Work)
    {types : List Term} (hx : x.isIndividual = true) (htypes : r.types x = .ok types)
    (hmember : (types.any fun t => t = c || r.subsumes (typeExpression t) (.concept c)) = true ∨
      r.equivalentClasses c ≠ []) :
    ∃ membership, checkClass r unfold path c x = every (done (.ok membership) ::
      (r.superClasses c ++ r.equivalentClasses c).map fun d => unfold (path.push c) d x) := by
  have hcond : (!(types.any fun t => t = c || r.subsumes (typeExpression t) (.concept c)) &&
      (r.equivalentClasses c).isEmpty) = false := by
    rcases hmember with h | h
    · rw [h, Bool.not_true, Bool.false_and]
    · rw [List.isEmpty_eq_false_iff.mpr h, Bool.and_false]
  refine ⟨if types.any fun t => t = c || r.subsumes (typeExpression t) (.concept c) then
    [⟨x, .iri Rdf.type, c⟩] else [], funext fun m => ?_⟩
  cases x with
  | literal l => exact absurd hx (by simp [Term.isIndividual])
  | iri i =>
    simp only [checkClass, htypes, hcond, Bool.false_eq_true, if_false]
  | blank b =>
    simp only [checkClass, htypes, hcond, Bool.false_eq_true, if_false]

/-- Such a class fails by the first of its definitions to fail. -/
theorem exists_comesTo_of_error {types : List Term} (hx : x.isIndividual = true)
    (htypes : r.types x = .ok types)
    (hmember : (types.any fun t => t = c || r.subsumes (typeExpression t) (.concept c)) = true ∨
      r.equivalentClasses c ≠ [])
    (hreached : m₀.Reached r) (hunknown : m₀.known (.concept c, x) = none)
    (h : (translateWithin r depth path (.concept c) x m₀).1 = .error f) :
    ∃ below e m, ComesTo r below path c x m₀ e m ∧
      (translateWithin r below (path.push c) e x m).1 = .error f ∧
        (translateWithin r below (path.push c) e x m).2.Below
          (translateWithin r depth path (.concept c) x m₀).2 := by
  obtain ⟨membership, hclass⟩ :=
    checkClass_eq_every path (unfoldWithin r depth) hx htypes hmember
  rw [translateWithin_eq_evaluate, evaluate, memoised_of_none hunknown] at h ⊢
  simp only [hclass] at h ⊢
  have hmoves : Moves Memo.Grows (outcome (every (done (.ok membership) ::
      (r.superClasses c ++ r.equivalentClasses c).map fun d =>
        unfoldWithin r depth (path.push c) d x))) :=
    moves_definitions Memo.Grows.refl Memo.Grows.trans
      fun d _ => grows_unfoldWithin r depth (path.push c) d x
  have hgrows := hmoves (m₀.start (.concept c, x))
  have hmarked := hgrows.kept (p := (.concept c, x)) (by rw [Memo.known_start, if_pos rfl])
  cases hevery : every (done (.ok membership) ::
    (r.superClasses c ++ r.equivalentClasses c).map fun d =>
      unfoldWithin r depth (path.push c) d x) (m₀.start (.concept c, x)) with
  | mk verdict m' =>
    rw [outcome, hevery] at hmarked
    rw [hevery] at h
    obtain rfl : verdict = .error f := h
    obtain ⟨before, e, after, found, m, hdefinitions, hbefore, hlast⟩ :=
      exists_of_definitions_eq_error hevery
    -- without depth left, no definition fails
    cases depth with
    | zero => exact absurd (Prod.mk.inj hlast).1 (by simp)
    | succ below =>
      refine ⟨below, e, m, ⟨hreached, hunknown, before, after, membership, found, hdefinitions,
        hbefore⟩, congrArg Prod.fst hlast, ?_⟩
      rw [show translateWithin r below (path.push c) e x m = (.error f, m') from hlast]
      exact below_finish hmarked _

end ComesTo

end Evidence

/-! ## The class that a failure names -/

theorem Translator.reached_run {τ : Translator} {r : Reasoner} (h : τ.memo.Reached r)
    (calls : List (Expression × Term)) : (τ.run r calls).memo.Reached r := by
  induction calls generalizing τ with
  | nil => exact h
  | cons p calls ih => exact ih (h.translate r.definedPairs τ.path p.1 p.2)

variable {k : Knowledge} {calls : List (Expression × Term)} {c x : Term} {f : Failure}

/-- The failure of a class is found on some path, on the empty one if the class is new. -/
theorem exists_first_of_translate_error
    (h : ((Translator.after k.reasoner calls).translate k.reasoner (.concept c) x).1 = .error f) :
    ∃ depth path m₀, Memo.Reached k.reasoner m₀ ∧ m₀.known (.concept c, x) = none ∧
      (translateWithin k.reasoner depth path (.concept c) x m₀).1 = .error f ∧
        (translateWithin k.reasoner depth path (.concept c) x m₀).2.Below
          ((Translator.after k.reasoner calls).translate k.reasoner (.concept c) x).2.memo ∧
        ((Translator.after k.reasoner calls).memo.known (.concept c, x) = none →
          m₀ = (Translator.after k.reasoner calls).memo ∧ path = .empty) := by
  have hreached : (Translator.after k.reasoner calls).memo.Reached k.reasoner :=
    Translator.reached_run .empty calls
  have hpath : (Translator.after k.reasoner calls).path = .empty := Translator.path_run _ _ _
  by_cases hnew : (Translator.after k.reasoner calls).memo.known (.concept c, x) = none
  · refine ⟨k.reasoner.definedPairs, .empty, (Translator.after k.reasoner calls).memo, hreached,
      hnew, ?_, ?_, fun _ => ⟨rfl, rfl⟩⟩
    · rwa [Translator.translate, hpath] at h
    · rw [Translator.translate, hpath]
      exact id
  · -- between calls nothing is in progress, so the verdict was found before
    have hpending := (Translator.faithful_run (Translator.faithful_new k.reasoner) calls).pending
    have hidle : (Translator.after k.reasoner calls).memo.known (.concept c, x) ≠
        some .inProgress := by
      intro hm
      exact absurd ((hpending (.concept c, x)).mp hm) (by simp)
    have hknown := known_translateWithin k.reasoner k.reasoner.definedPairs
      (Translator.after k.reasoner calls).path (.concept c) x hidle
    have hafter : Memo.Reached k.reasoner
        ((Translator.after k.reasoner calls).translate k.reasoner (.concept c) x).2.memo :=
      hreached.translate _ _ _ _
    obtain ⟨path, depth, m₀, hm₀, hunknown, hverdict, hbelow⟩ :=
      exists_foundOn_of_reached hafter (.concept c, x) _ hknown
    exact ⟨depth, path, m₀, hm₀, hunknown, hverdict.trans h, hbelow, fun h => absurd h hnew⟩

/-- When a class whose definitions decide fails, after any history, some definition e failed when
the class was first translated. If e is a restriction, the failure names the class, unless e was
translated for the individual before: then it shows the path on which that was done. -/
theorem names_of_translate_error (k : Knowledge) (calls : List (Expression × Term)) (c x : Term)
    (f : Failure) (hexpands : k.Expands c x)
    (h : ((Translator.after k.reasoner calls).translate k.reasoner (.concept c) x).1 = .error f) :
    ∃ depth path m₀ e m, ComesTo k.reasoner depth path c x m₀ e m ∧
      (translateWithin k.reasoner depth (path.push c) e x m).1 = .error f ∧
      (translateWithin k.reasoner depth (path.push c) e x m).2.Below
        ((Translator.after k.reasoner calls).translate k.reasoner (.concept c) x).2.memo ∧
      ((Translator.after k.reasoner calls).memo.known (.concept c, x) = none →
        m₀ = (Translator.after k.reasoner calls).memo ∧ path = .empty) ∧
      (e.needsValues = true →
        (m.known (e, x) = none → f.Names c) ∧
        (m.known (e, x) ≠ none →
          ∃ other, FoundOn k.reasoner m (e, x) (.error f) other ∧ f.Shows other)) := by
  obtain ⟨outer, path, m₀, hreached, hunknown, hverdict, hbelow, hfirst⟩ :=
    exists_first_of_translate_error h
  have htypes : k.reasoner.types x = .ok (k.store.types x) :=
    Knowledge.ifMentioned_eq_ok_iff.mpr ⟨hexpands.mentioned, rfl⟩
  have hmember : ((k.store.types x).any fun t =>
      t = c || k.reasoner.subsumes (typeExpression t) (.concept c)) = true ∨
        k.reasoner.equivalentClasses c ≠ [] := by
    rcases hexpands.member with hmember | hequivalent
    · exact Or.inl (Knowledge.isMember_iff.mpr hmember)
    · exact Or.inr hequivalent
  obtain ⟨depth, e, m, hcomes, herror, hkept⟩ :=
    exists_comesTo_of_error hexpands.individual htypes hmember hreached hunknown hverdict
  refine ⟨depth, path, m₀, e, m, hcomes, herror, hkept.trans hbelow, hfirst, ?_⟩
  intro he
  exact ⟨fun hnew => (shows_of_unknown he hnew herror).names,
    fun hold => exists_foundOn_shows hcomes.reached_last he hold herror⟩

/-! ### A restriction of two classes

A and B are both equivalent to one restriction, and x has no value for its property. Once x was
found not to be an A, the failure of B names A. -/

namespace SharedRestriction

def triples : List Triple :=
  [⟨.iri ⟨"A"⟩, .iri Owl.equivalentClass, .blank ⟨0, none⟩⟩,
    ⟨.iri ⟨"B"⟩, .iri Owl.equivalentClass, .blank ⟨0, none⟩⟩,
    ⟨.blank ⟨0, none⟩, .iri Owl.onProperty, .iri ⟨"p"⟩⟩,
    ⟨.blank ⟨0, none⟩, .iri Owl.someValuesFrom, .iri Owl.thing⟩,
    ⟨.iri ⟨"x"⟩, .iri ⟨"q"⟩, .iri ⟨"y"⟩⟩]

def knowledge : Knowledge := ⟨.ofList triples, 2⟩

def restriction : Expression := .someOf (.iri ⟨"p"⟩) .top

/-- What each node stands for. -/
def expression (node : Term) : Expression :=
  if node = .blank ⟨0, none⟩ then restriction else typeExpression node

/-- The same reasoner, with classes read by this table. -/
def reasoner : Reasoner :=
  { knowledge.reasoner with
    superClasses := fun c => (knowledge.store.objects c Rdfs.subClassOf).map expression
    equivalentClasses := fun c =>
      Distinct.dedup ((knowledge.store.objects c Owl.equivalentClass ++
        knowledge.store.subjects Owl.equivalentClass c).map expression) }

theorem expression_eq : knowledge.store.expression = expression := by
  have htriples : knowledge.store.triples = triples := by
    rw [knowledge, Store.ofList, Store.triples_insertAll]
    decide
  funext node
  cases node with
  | iri i => rw [Store.expression, Store.readExpression_iri]; rfl
  | literal l => rw [Store.expression, Store.readExpression_literal]; rfl
  | blank b =>
    by_cases hb : b = ⟨0, none⟩
    · subst hb
      have hform : knowledge.store.form? (.blank ⟨0, none⟩) =
          some (.some (.iri ⟨"p"⟩) (.iri Owl.thing)) := rfl
      rw [Store.expression, Store.readExpression_of_form? (by simp) hform, NodeForm.toExpression,
        Store.readExpression_iri]
      rfl
    · have hread : knowledge.store.expression (.blank b) = .concept (.blank b) := by
        apply Store.expression_of_outgoing_eq_nil
        rw [Store.outgoing_eq_edgesFrom, htriples]
        simp [edgesFrom, triples, Ne.symm hb]
      rw [hread, expression, if_neg (by simp [hb])]
      rfl

theorem reasoner_eq : knowledge.reasoner = reasoner := by
  rw [reasoner, ← expression_eq]
  rfl

theorem equivalentClasses_B : knowledge.store.equivalentClasses (.iri ⟨"B"⟩) = [restriction] := by
  show knowledge.reasoner.equivalentClasses (.iri ⟨"B"⟩) = [restriction]
  rw [reasoner_eq]
  decide

theorem definitions_B : knowledge.definitions (.iri ⟨"B"⟩) = [restriction] := by
  have hsupers : knowledge.store.superClasses (.iri ⟨"B"⟩) = [] := by decide
  rw [Knowledge.definitions, hsupers, equivalentClasses_B, List.nil_append]

theorem expands_B : knowledge.Expands (.iri ⟨"B"⟩) (.iri ⟨"x"⟩) :=
  ⟨rfl, by decide, Or.inr (by simp [equivalentClasses_B])⟩

/-- What the translator was asked before: whether x is an A. -/
def history : List (Expression × Term) := [(.concept (.iri ⟨"A"⟩), .iri ⟨"x"⟩)]

theorem exists_failure_of_A :
    ∃ f, ((Translator.after knowledge.reasoner history).translate knowledge.reasoner
        (.concept (.iri ⟨"B"⟩)) (.iri ⟨"x"⟩)).1 = .error f ∧ f.inClass = some (.iri ⟨"A"⟩) := by
  rw [reasoner_eq]
  exact ⟨_, rfl, by decide +kernel⟩

/-- A class whose only definition is a violated restriction need not be the one that is named. -/
theorem not_forall_inClass_eq :
    ¬ ∀ (k : Knowledge) (calls : List (Expression × Term)) (c x : Term) (e : Expression)
      (f : Failure), k.Expands c x → e.needsValues = true → k.definitions c = [e] →
        ((Translator.after k.reasoner calls).translate k.reasoner (.concept c) x).1 = .error f →
          f.inClass = some c := by
  intro h
  obtain ⟨f, herror, hclass⟩ := exists_failure_of_A
  have := h knowledge history _ _ restriction f expands_B rfl definitions_B herror
  rw [hclass] at this
  exact absurd this (by decide)

/-- The failure of B shows the path on which the restriction was translated before. -/
theorem names_of_translate_error_A :
    knowledge.Expands (.iri ⟨"B"⟩) (.iri ⟨"x"⟩) ∧
      ∃ f, ((Translator.after knowledge.reasoner history).translate knowledge.reasoner
          (.concept (.iri ⟨"B"⟩)) (.iri ⟨"x"⟩)).1 = .error f ∧
        ∃ m other, FoundOn knowledge.reasoner m (restriction, .iri ⟨"x"⟩) (.error f) other ∧
          f.Shows other ∧ other.top? = some (.iri ⟨"A"⟩) := by
  obtain ⟨f, herror, hclass⟩ := exists_failure_of_A
  refine ⟨expands_B, f, herror, ?_⟩
  obtain ⟨depth, path, m₀, e, m, hcomes, -, -, -, hnames⟩ :=
    names_of_translate_error knowledge history _ _ f expands_B herror
  -- B has no other definition
  obtain rfl : e = restriction := by
    obtain ⟨before, after, -, -, hsplit, -⟩ := hcomes.earlier
    have hmem : e ∈ knowledge.definitions (.iri ⟨"B"⟩) := by
      rw [Knowledge.definitions]
      exact hsplit ▸ List.mem_append_right before List.mem_cons_self
    rwa [definitions_B, List.mem_singleton] at hmem
  obtain ⟨hnew, hold⟩ := hnames rfl
  have hknown : m.known (restriction, .iri ⟨"x"⟩) ≠ none := by
    intro hm
    have := (hnew hm).inClass
    rw [hclass] at this
    exact absurd this (by decide)
  obtain ⟨other, hfound, hshows⟩ := hold hknown
  exact ⟨m, other, hfound, hshows, hshows.inClass.symm.trans hclass⟩

end SharedRestriction

end GraphConformance
