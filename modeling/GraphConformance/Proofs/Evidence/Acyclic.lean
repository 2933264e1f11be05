import GraphConformance.Evidence.Translator
import GraphConformance.Proofs.Evidence.ClosedWorld
import GraphConformance.Proofs.Evidence.Depth

/-!
# Translation without cycles

Where closed-world evaluation has an answer, translation finds that answer, whatever is in the
memory: the pairs in progress are not among those that are asked, since each question of a round is
answered by fewer rounds (`follows_closedWorld`). Conversely a translation that meets no pair in
progress answers as closed-world evaluation does (`closedWorld_of_cycles_le`).
-/

set_option autoImplicit false

namespace GraphConformance.Evidence

variable {k : Knowledge} {given : Term}

/-- Each verdict that is kept has a property, and the pairs in progress are those of a set. -/
structure Memo.Keeps (m : Memo) (V : Expression × Term → Verdict → Prop)
    (S : Finset (Expression × Term)) : Prop where
  pending : m.Pending S
  verdict : ∀ {p verdict}, m.known p = some (.finished verdict) → V p verdict

namespace Memo.Keeps

variable {m : Memo} {V : Expression × Term → Verdict → Prop} {S : Finset (Expression × Term)}

theorem empty : Memo.empty.Keeps V ∅ := by
  refine ⟨Memo.Pending.empty, ?_⟩
  intro p verdict hp
  rw [known_empty] at hp
  exact absurd hp (by simp)

theorem start (h : m.Keeps V S) (p : Expression × Term) : (m.start p).Keeps V (insert p S) := by
  refine ⟨h.pending.start p, ?_⟩
  intro q verdict hq
  rw [known_start] at hq
  by_cases heq : q = p
  · rw [if_pos heq] at hq
    exact absurd hq (by simp)
  · rw [if_neg heq] at hq
    exact h.verdict hq

theorem finish {e : Expression} {x : Term} {verdict : Verdict} (h : m.Keeps V (insert (e, x) S))
    (hn : (e, x) ∉ S) (hverdict : V (e, x) verdict) : (m.finish e x verdict).Keeps V S := by
  refine ⟨h.pending.finish hn _, ?_⟩
  intro q other hq
  rw [known_finish] at hq
  by_cases heq : q = (e, x)
  · subst heq
    rw [if_pos rfl] at hq
    obtain rfl := Entry.finished.inj (Option.some.inj hq)
    exact hverdict
  · rw [if_neg heq] at hq
    exact h.verdict hq

theorem hit (h : m.Keeps V S) (hits cycles : Nat) :
    Memo.Keeps { m with hits := hits, cycles := cycles } V S :=
  ⟨h.pending, h.verdict⟩

end Memo.Keeps

/-- Where closed-world evaluation has an answer, the verdict that is kept is that answer. -/
abbrev Memo.Faithful (m : Memo) (r : Reasoner) (S : Finset (Expression × Term)) : Prop :=
  m.Keeps (fun p verdict => ∀ finding, r.closedWorld p.1 p.2 = some finding →
    verdict.toOption = finding) S

/-- What is known about pairs without a closed-world answer is the same, and no cycle was met. -/
structure Memo.Untouched (m m' : Memo) (r : Reasoner) : Prop where
  known_eq : ∀ {p}, r.closedWorld p.1 p.2 = none → m'.known p = m.known p
  cycles_eq : m'.cycles = m.cycles

theorem Memo.Untouched.trans {m₁ m₂ m₃ : Memo} {r : Reasoner} (h : m₁.Untouched m₂ r)
    (h' : m₂.Untouched m₃ r) : m₁.Untouched m₃ r :=
  ⟨fun hp => (h'.known_eq hp).trans (h.known_eq hp), h'.cycles_eq.trans h.cycles_eq⟩

/-! ## From closed-world evaluation to translation -/

/-- Where the plain computation has an answer, the one with a memory finds it and keeps `P`. -/
def whereDefined (P : Memo → Prop) : Simulation Recall Option where
  Rel x a := ∀ v, a = some v → ∀ m, P m → (x m).1 = v ∧ P (x m).2
  rel_pure a v h m hm := ⟨Option.some.inj h, hm⟩
  rel_bind {α β x y f g} hx hf v hv m hm := by
    obtain ⟨a, ha, hga⟩ := Option.bind_eq_some_iff.mp hv
    obtain ⟨hval, hP⟩ := hx a ha m hm
    rw [bind_apply, hval]
    exact hf a v hga _ hP

/-- What a translation that follows closed-world evaluation ends in. -/
structure Follows (r : Reasoner) (S : Finset (Expression × Term)) (finding : Finding) (m : Memo)
    (result : Finding × Memo) : Prop where
  finding_eq : result.1 = finding
  faithful : result.2.Faithful r S
  untouched : m.Untouched result.2 r

theorem follows_of_known {r : Reasoner} {S : Finset (Expression × Term)} {e : Expression}
    {x : Term} {finding : Finding} {m : Memo} {verdict : Verdict} {work : Work}
    (h : r.closedWorld e x = some finding) (hm : m.Faithful r S)
    (hknown : m.known (e, x) = some (.finished verdict)) :
    Follows r S finding m (outcome (memoised e x work) m) := by
  have hresult : outcome (memoised e x work) m =
      (verdict.toOption, { m with hits := m.hits + 1 }) := by
    rw [outcome, memoised_of_finished hknown]
  rw [hresult]
  exact ⟨hm.verdict hknown finding h, hm.hit _ _, fun _ => rfl, rfl⟩

/-- Keeping a verdict that closed-world evaluation confirms. -/
theorem follows_of_start {r : Reasoner} {S : Finset (Expression × Term)} {e : Expression}
    {x : Term} {finding : Finding} {m : Memo} {work : Work}
    (h : r.closedWorld e x = some finding) (hm : m.Faithful r S) (hnone : m.known (e, x) = none)
    (hwork : Follows r (insert (e, x) S) finding (m.start (e, x))
      (outcome work (m.start (e, x)))) :
    Follows r S finding m (outcome (memoised e x work) m) := by
  have hresult : outcome (memoised e x work) m =
      ((outcome work (m.start (e, x))).1,
        (outcome work (m.start (e, x))).2.finish e x (work (m.start (e, x))).1) := by
    rw [outcome, memoised_of_none hnone]
    rfl
  have hverdict : (work (m.start (e, x))).1.toOption = finding := hwork.finding_eq
  have hne : ∀ {p : Expression × Term}, r.closedWorld p.1 p.2 = none → p ≠ (e, x) := by
    rintro p hp rfl
    exact absurd (hp.symm.trans h) (by simp)
  rw [hresult]
  refine ⟨hwork.finding_eq, ?_, ?_, hwork.untouched.cycles_eq⟩
  · apply hwork.faithful.finish (hm.pending.not_mem hnone)
    intro found hfound
    obtain rfl : finding = found := Option.some.inj (h.symm.trans hfound)
    exact hverdict
  · intro p hp
    rw [Memo.known_finish, if_neg (hne hp), hwork.untouched.known_eq hp, Memo.known_start,
      if_neg (hne hp)]

/-- Where closed-world evaluation has an answer within some rounds, and within those rounds none for
the pairs in progress, translation finds this answer. -/
theorem follows_closedWorldWithin {n : Nat} {e : Expression} {x : Term} {finding : Finding}
    (h : k.reasoner.closedWorldWithin n e x = some finding) {depth : Nat} (path : ClassPath)
    {S : Finset (Expression × Term)} (hdepth : k.Suffices given S depth)
    (hx : x ∈ k.individuals given) (hS : ∀ p ∈ S, k.reasoner.closedWorldWithin n p.1 p.2 = none)
    {m : Memo} (hm : m.Faithful k.reasoner S) :
    Follows k.reasoner S finding m (outcome (translateWithin k.reasoner depth path e x) m) := by
  induction n generalizing e x finding depth path S m with
  | zero => exact absurd h (by simp [Reasoner.closedWorldWithin])
  | succ n ih =>
    have hlimit : k.reasoner.closedWorld e x = some finding :=
      Reasoner.closedWorld_eq_some_iff.mpr ⟨n + 1, h⟩
    have hfewer : ∀ p ∈ S, k.reasoner.closedWorldWithin n p.1 p.2 = none := by
      intro p hp
      cases hn : k.reasoner.closedWorldWithin n p.1 p.2 with
      | none => rfl
      | some found =>
        exact absurd ((hS p hp).symm.trans (Reasoner.closedWorldWithin_succ hn)) (by simp)
    cases hn : k.reasoner.closedWorldWithin n e x with
    -- fewer rounds suffice for this pair already
    | some found =>
      have := Reasoner.closedWorldWithin_succ hn
      obtain rfl : found = finding := Option.some.inj (this.symm.trans h)
      exact ih hn path hdepth hx hfewer hm
    | none =>
      obtain ⟨work, hwork, hround⟩ := translateWithin_eq k.reasoner depth path e x
      rw [hwork]
      cases hknown : m.known (e, x) with
      | some entry =>
        cases entry with
        | inProgress =>
          -- a pair in progress has no answer within these rounds
          have := hS (e, x) ((hm.pending _).mp hknown)
          exact absurd (this.symm.trans h) (by simp)
        | finished verdict => exact follows_of_known hlimit hm hknown
      | none =>
        have hnot := hm.pending.not_mem hknown
        -- the pair itself has no answer within fewer rounds, so it may be in progress
        have hS' : ∀ p ∈ insert (e, x) S, k.reasoner.closedWorldWithin n p.1 p.2 = none := by
          intro p hp
          rcases Finset.mem_insert.mp hp with rfl | hp
          · exact hn
          · exact hfewer p hp
        have hrel : (whereDefined fun m' => m'.Faithful k.reasoner (insert (e, x) S) ∧
            (m.start (e, x)).Untouched m' k.reasoner).Rel (outcome work)
              (k.reasoner.closedWorldWithin (n + 1) e x) := by
          rw [hround]
          apply Simulation.round
          · intro e' x' hpart v hv m' hm'
            have := ih hv path (hdepth.insert (e, x)) (k.mem_individuals_of_part hpart hx) hS' hm'.1
            exact ⟨this.finding_eq, this.faithful, hm'.2.trans this.untouched⟩
          · intro d hd v hv m' hm'
            obtain ⟨below, rfl, hbelow⟩ := hdepth.unfold hd hx hnot
            have := ih hv (pathInside path e) hbelow hx hS' hm'.1
            exact ⟨this.finding_eq, this.faithful, hm'.2.trans this.untouched⟩
        obtain ⟨hfinding, hfaithful, huntouched⟩ :=
          hrel finding h (m.start (e, x)) ⟨hm.start (e, x), fun _ => rfl, rfl⟩
        exact follows_of_start hlimit hm hknown ⟨hfinding, hfaithful, huntouched⟩

/-- Where closed-world evaluation has an answer, and none for the pairs in progress, translation
finds this answer. -/
theorem follows_closedWorld {e : Expression} {x : Term} {finding : Finding}
    (h : k.reasoner.closedWorld e x = some finding) {depth : Nat} (path : ClassPath)
    {S : Finset (Expression × Term)} (hdepth : k.Suffices given S depth)
    (hx : x ∈ k.individuals given) (hS : ∀ p ∈ S, k.reasoner.closedWorld p.1 p.2 = none)
    {m : Memo} (hm : m.Faithful k.reasoner S) :
    Follows k.reasoner S finding m (outcome (translateWithin k.reasoner depth path e x) m) := by
  obtain ⟨n, hn⟩ := Reasoner.closedWorld_eq_some_iff.mp h
  refine follows_closedWorldWithin hn path hdepth hx ?_ hm
  intro p hp
  cases hp' : k.reasoner.closedWorldWithin n p.1 p.2 with
  | none => rfl
  | some found =>
    exact absurd ((hS p hp).symm.trans (Reasoner.closedWorld_eq_some_iff.mpr ⟨n, hp'⟩)) (by simp)

/-! ## From translation to closed-world evaluation -/

/-- Every verdict that is kept is what closed-world evaluation finds. -/
abbrev Memo.Settled (m : Memo) (r : Reasoner) (S : Finset (Expression × Term)) : Prop :=
  m.Keeps (fun p verdict => r.closedWorld p.1 p.2 = some verdict.toOption) S

/-- While at most `c` cycles are counted, the plain computation has the answer of the one with a
memory, which keeps `P`. -/
def withinCycles (P : Memo → Prop) (c : Nat) : Simulation Recall Option where
  Rel x a := Moves Memo.Grows x ∧
    ∀ m, P m → (x m).2.cycles ≤ c → a = some (x m).1 ∧ P (x m).2
  rel_pure a := ⟨Memo.Grows.refl, fun _ hm _ => ⟨rfl, hm⟩⟩
  rel_bind {α β x y f g} hx hf := by
    refine ⟨fun m => (hx.1 m).trans ((hf _).1 _), ?_⟩
    intro m hm hc
    have hle : (x m).2.cycles ≤ c := Nat.le_trans ((hf (x m).1).1 (x m).2).cycles_le hc
    obtain ⟨hy, hP⟩ := hx.2 m hm hle
    rw [hy, Option.bind_eq_bind, Option.bind_some]
    exact (hf (x m).1).2 (x m).2 hP hc

/-- A translation that counts no new cycle answers as closed-world evaluation does. -/
theorem closedWorld_of_cycles_le (depth : Nat) (e : Expression) (x : Term) (path : ClassPath)
    {S : Finset (Expression × Term)} (hdepth : k.Suffices given S depth)
    (hx : x ∈ k.individuals given) {m : Memo} (hm : m.Settled k.reasoner S)
    (hc : (outcome (translateWithin k.reasoner depth path e x) m).2.cycles ≤ m.cycles) :
    k.reasoner.closedWorld e x =
        some (outcome (translateWithin k.reasoner depth path e x) m).1 ∧
      (outcome (translateWithin k.reasoner depth path e x) m).2.Settled k.reasoner S := by
  induction depth, e, x using translateWithin_induction k.reasoner generalizing path S m with
  | round depth e x hpart hdefinition =>
    obtain ⟨work, hwork, hround⟩ := translateWithin_eq k.reasoner depth path e x
    rw [hwork] at hc ⊢
    rw [outcome] at hc ⊢
    cases hknown : m.known (e, x) with
    | some entry =>
      cases entry with
      | inProgress =>
        -- this look-up would count a cycle
        rw [memoised_of_inProgress hknown] at hc
        exact absurd hc (Nat.not_succ_le_self _)
      | finished verdict =>
        rw [memoised_of_finished hknown]
        exact ⟨hm.verdict hknown, hm.hit _ _⟩
    | none =>
      have hnot := hm.pending.not_mem hknown
      rw [memoised_of_none hknown] at hc ⊢
      -- the count stays what it was at the start, in each question of the round
      have hrel : (withinCycles (fun m' => m'.Settled k.reasoner (insert (e, x) S) ∧
          m.cycles ≤ m'.cycles) m.cycles).Rel (outcome work)
            (k.reasoner.round k.reasoner.closedWorld k.reasoner.closedWorld e x) := by
        rw [hround]
        apply Simulation.round
        · intro e' x' h
          refine ⟨grows_translateWithin _ _ _ _ _, ?_⟩
          intro m' hm' hc'
          have := hpart e' x' h path (hdepth.insert (e, x)) (k.mem_individuals_of_part h hx) hm'.1
            (Nat.le_trans hc' hm'.2)
          exact ⟨this.1, this.2,
            Nat.le_trans hm'.2 (grows_translateWithin _ _ _ _ _ m').cycles_le⟩
        · intro d h
          refine ⟨grows_unfoldWithin _ _ _ _ _, ?_⟩
          intro m' hm' hc'
          obtain ⟨below, rfl, hbelow⟩ := hdepth.unfold h hx hnot
          have := hdefinition below d rfl h (pathInside path e) hbelow hx hm'.1
            (Nat.le_trans hc' hm'.2)
          exact ⟨this.1, this.2,
            Nat.le_trans hm'.2 (grows_translateWithin _ _ _ _ _ m').cycles_le⟩
      obtain ⟨hanswer, hsettled, -⟩ :=
        hrel.2 (m.start (e, x)) ⟨hm.start (e, x), Nat.le_refl _⟩ hc
      have hfound := Reasoner.closedWorld_of_round hanswer
      exact ⟨hfound, hsettled.finish hnot hfound⟩

end GraphConformance.Evidence
