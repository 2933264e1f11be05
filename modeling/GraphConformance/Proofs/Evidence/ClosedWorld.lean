import GraphConformance.Proofs.Evidence.Round

/-!
# Closed-world evaluation

Closed-world evaluation is the plain recursion of rounds: without memory and without a path of
classes. It need not end where definitions lead back to themselves, so it is given as a number of
rounds inside each other (`Reasoner.closedWorldWithin`) and as what enough rounds give
(`Reasoner.closedWorld`). More rounds do not change a finding (`closedWorldWithin_mono`), and a
round over the findings of enough rounds is one itself (`closedWorld_of_round`).
-/

set_option autoImplicit false

namespace GraphConformance

open Evidence

/-! ## Two simulations of partial computations -/

/-- What the first computation gives, the second one gives too. -/
def Simulation.refining : Simulation Option Option where
  Rel a b := ∀ v, a = some v → b = some v
  rel_pure _ _ h := h
  rel_bind {α β x y f g} h hf v hv := by
    obtain ⟨a, ha, hfa⟩ := Option.bind_eq_some_iff.mp hv
    exact Option.bind_eq_some_iff.mpr ⟨a, h a ha, hf a v hfa⟩

/-- A partial computation for each bound. -/
def Stages (α : Type) : Type := Nat → Option α

instance : Monad Stages where
  pure a := fun _ => some a
  bind x f := fun n => (x n).bind (f · n)

/-- The stage at a bound is the given computation. -/
def Simulation.stage (n : Nat) : Simulation Stages Option where
  Rel x a := x n = a
  rel_pure _ := rfl
  rel_bind {α β x y f g} h hf := by
    show (x n).bind (f · n) = y.bind g
    rw [h]
    exact congrArg y.bind (funext hf)

/-- What the given computation gives, all stages from some bound on give too. -/
def Simulation.limit : Simulation Stages Option where
  Rel x a := ∀ v, a = some v → ∃ n, ∀ k ≥ n, x k = some v
  rel_pure _ v h := ⟨0, fun _ _ => h⟩
  rel_bind {α β x y f g} h hf v hv := by
    obtain ⟨a, ha, hga⟩ := Option.bind_eq_some_iff.mp hv
    obtain ⟨n₁, hn₁⟩ := h a ha
    obtain ⟨n₂, hn₂⟩ := hf a v hga
    -- from the larger of the two bounds on, both parts have their values
    refine ⟨max n₁ n₂, ?_⟩
    intro k hk
    apply Option.bind_eq_some_iff.mpr
    exact ⟨a, hn₁ k (by omega), hn₂ k (by omega)⟩

namespace Reasoner

/-! ## Evaluation -/

/-- Closed-world evaluation with at most so many rounds inside each other; without an answer when
these do not suffice. -/
def closedWorldWithin (r : Reasoner) : Nat → Expression → Term → Option Finding
  | 0, _, _ => none
  | n + 1, e, x => r.round (r.closedWorldWithin n) (r.closedWorldWithin n) e x

variable {r : Reasoner} {e : Expression} {x : Term} {finding : Finding}

theorem closedWorldWithin_succ {n : Nat} (h : r.closedWorldWithin n e x = some finding) :
    r.closedWorldWithin (n + 1) e x = some finding := by
  induction n generalizing e x finding with
  | zero => exact absurd h (by simp [closedWorldWithin])
  | succ n ih =>
    have hround : Simulation.refining.Rel (r.closedWorldWithin (n + 1) e x)
        (r.closedWorldWithin (n + 2) e x) :=
      Simulation.refining.round (fun _ _ _ _ => ih) (fun _ _ _ => ih)
    exact hround finding h

/-- Closed-world evaluation for each number of rounds. -/
def closedWorldStages (r : Reasoner) (e : Expression) (x : Term) : Stages Finding :=
  fun n => r.closedWorldWithin n e x

theorem closedWorldWithin_mono {m n : Nat} (hmn : m ≤ n)
    (h : r.closedWorldWithin m e x = some finding) : r.closedWorldWithin n e x = some finding := by
  induction hmn with
  | refl => exact h
  | step _ ih => exact closedWorldWithin_succ ih

open Classical in
/-- Closed-world evaluation; without an answer when the recursion does not end. -/
noncomputable def closedWorld (r : Reasoner) (e : Expression) (x : Term) : Option Finding :=
  if h : ∃ n, (r.closedWorldWithin n e x).isSome then r.closedWorldWithin h.choose e x else none

theorem closedWorld_eq_some_iff :
    r.closedWorld e x = some finding ↔ ∃ n, r.closedWorldWithin n e x = some finding := by
  rw [closedWorld]
  constructor
  · intro h
    split at h
    · exact ⟨_, h⟩
    · exact absurd h (by simp)
  · rintro ⟨n, hn⟩
    have hex : ∃ n, (r.closedWorldWithin n e x).isSome := ⟨n, by rw [hn]; rfl⟩
    rw [dif_pos hex]
    obtain ⟨other, hother⟩ := Option.isSome_iff_exists.mp hex.choose_spec
    -- both stages agree with the later one of them
    have h₁ := closedWorldWithin_mono (Nat.le_max_left n hex.choose) hn
    have h₂ := closedWorldWithin_mono (Nat.le_max_right n hex.choose) hother
    rw [hother, ← h₂, h₁]

/-- A round over what closed-world evaluation finds is closed-world evaluation. -/
theorem closedWorld_of_round (h : r.round r.closedWorld r.closedWorld e x = some finding) :
    r.closedWorld e x = some finding := by
  have hask : ∀ e' x', Simulation.limit.Rel (r.closedWorldStages e' x') (r.closedWorld e' x') := by
    intro e' x' v hv
    obtain ⟨n, hn⟩ := closedWorld_eq_some_iff.mp hv
    exact ⟨n, fun k hk => closedWorldWithin_mono hk hn⟩
  have hlimit : Simulation.limit.Rel (r.round r.closedWorldStages r.closedWorldStages e x)
      (r.round r.closedWorld r.closedWorld e x) :=
    Simulation.limit.round (fun e' x' _ => hask e' x') (fun d _ => hask d x)
  obtain ⟨n, hn⟩ := hlimit finding h
  have hstage : (Simulation.stage n).Rel (r.round r.closedWorldStages r.closedWorldStages e x)
      (r.closedWorldWithin (n + 1) e x) :=
    (Simulation.stage n).round (fun _ _ _ => rfl) (fun _ _ => rfl)
  exact closedWorld_eq_some_iff.mpr ⟨n + 1, hstage.symm.trans (hn n (Nat.le_refl n))⟩

end Reasoner

end GraphConformance
