import GraphConformance.Proofs.Evidence.Origin

/-!
# Verdicts are final

A translator keeps one entry for each pair that it missed, and none is left in progress when a call
is over (`Memo.Balanced`). A verdict that is kept stays as it is, whatever is asked later, and to
ask for its pair again only counts a hit: the answer is the same whoever would answer for the
reasoner (`final_after`).

What one look-up does to the size and the counters (`accounts_memoised`) is what every translation
does to them (`accounts_translateWithin`), so it is what every history does.
-/

set_option autoImplicit false

namespace GraphConformance

open Evidence

namespace Evidence

/-! ## Sizes and counters -/

namespace Memo

variable {m m' : Memo} {p : Expression × Term}

theorem size_start (h : m.known p = none) : (m.start p).size = m.size + 1 :=
  (m.entries.size_insert p .inProgress).trans (if_pos h)

theorem size_finish {e : Expression} {x : Term} (h : m.known (e, x) ≠ none) (verdict : Verdict) :
    (m.finish e x verdict).size = m.size :=
  (m.entries.size_insert (e, x) (.finished verdict)).trans (if_neg h)

/-- The memory grows by one entry for each miss, and by no more cycles than hits. -/
structure Accounts (m m' : Memo) : Prop extends m.Grows m' where
  entries : m'.size + m.misses = m.size + m'.misses
  cycles_hits : m'.cycles + m.hits ≤ m.cycles + m'.hits

namespace Accounts

theorem refl (m : Memo) : m.Accounts m := ⟨.refl m, rfl, Nat.le_refl _⟩

theorem trans {m₁ m₂ m₃ : Memo} (h : m₁.Accounts m₂) (h' : m₂.Accounts m₃) : m₁.Accounts m₃ := by
  have hentries := h.entries
  have hentries' := h'.entries
  have hcycles := h.cycles_hits
  have hcycles' := h'.cycles_hits
  exact ⟨h.toGrows.trans h'.toGrows, by omega, by omega⟩

end Accounts

end Memo

/-- A look-up accounts for its miss or its hit when its work does for its own. -/
theorem accounts_memoised {e : Expression} {x : Term} {work : Work}
    (h : Moves Memo.Accounts (outcome work)) :
    Moves Memo.Accounts (outcome (memoised e x work)) := by
  intro m
  show m.Accounts (memoised e x work m).2
  have hgrows : m.Grows (memoised e x work m).2 := grows_memoised (fun m => (h m).toGrows) m
  cases hm : m.known (e, x) with
  | none =>
    have hwork : (m.start (e, x)).Accounts (work (m.start (e, x))).2 := h (m.start (e, x))
    -- the mark is the new entry, and the verdict takes its place
    have hstart := Memo.size_start hm
    have hmarked : (work (m.start (e, x))).2.known (e, x) ≠ none := by
      apply hwork.toGrows.known_ne_none
      rw [Memo.known_start, if_pos rfl]
      simp
    have hmisses : (m.start (e, x)).misses = m.misses + 1 := rfl
    have hentries := hwork.entries
    rw [memoised_of_none hm] at hgrows ⊢
    refine ⟨hgrows, ?_, hwork.cycles_hits⟩
    rw [Memo.size_finish hmarked]
    show (work (m.start (e, x))).2.size + m.misses = m.size + (work (m.start (e, x))).2.misses
    omega
  | some entry =>
    cases entry with
    | inProgress =>
      -- a cycle is counted as a hit as well
      rw [memoised_of_inProgress hm] at hgrows ⊢
      exact ⟨hgrows, rfl, by dsimp only; omega⟩
    | finished verdict =>
      rw [memoised_of_finished hm] at hgrows ⊢
      exact ⟨hgrows, rfl, by dsimp only; omega⟩

theorem accounts_translateWithin (r : Reasoner) (depth : Nat) (path : ClassPath) (e : Expression)
    (x : Term) : Moves Memo.Accounts (outcome (translateWithin r depth path e x)) :=
  moves_translateWithin Memo.Accounts.refl Memo.Accounts.trans (fun _ _ _ => accounts_memoised) r
    depth path e x

/-! ## Between calls -/

namespace Memo

/-- Nothing is in progress, each miss has left an entry, and cycles are among the hits. -/
structure Balanced (m : Memo) : Prop where
  idle : ∀ p, m.known p ≠ some .inProgress
  size_eq : m.size = m.misses
  cycles_le : m.cycles ≤ m.hits

namespace Balanced

theorem empty : Memo.empty.Balanced where
  idle p := by
    rw [known_empty]
    simp
  size_eq := rfl
  cycles_le := Nat.le_refl _

theorem of_accounts {m m' : Memo} (h : m.Balanced) (h' : m.Accounts m') : m'.Balanced where
  idle p := by
    cases hp : m.known p with
    | none => exact h'.finished hp
    | some entry =>
      rw [h'.kept hp, ← hp]
      exact h.idle p
  size_eq := by
    have hsize := h.size_eq
    have hentries := h'.entries
    omega
  cycles_le := by
    have hcycles := h.cycles_le
    have hcycles' := h'.cycles_hits
    omega

end Balanced

end Memo

end Evidence

namespace Translator

/-- The translator with one more hit counted. -/
def counted (τ : Translator) : Translator :=
  { τ with memo := { τ.memo with hits := τ.memo.hits + 1 } }

theorem balanced_run {τ : Translator} (h : τ.memo.Balanced) (r : Reasoner)
    (calls : List (Expression × Term)) : (τ.run r calls).memo.Balanced := by
  induction calls generalizing τ with
  | nil => exact h
  | cons p calls ih =>
    have hfirst : τ.memo.Accounts (τ.translate r p.1 p.2).2.memo :=
      accounts_translateWithin r r.definedPairs τ.path p.1 p.2 τ.memo
    exact ih (h.of_accounts hfirst)

/-- A pair with a verdict is answered from memory, whoever would answer questions. -/
theorem translate_of_known {τ : Translator} {e : Expression} {x : Term} {verdict : Verdict}
    (h : τ.memo.known (e, x) = some (.finished verdict)) (r : Reasoner) :
    τ.translate r e x = (verdict, τ.counted) := by
  obtain ⟨work, hwork, -⟩ := translateWithin_eq r r.definedPairs τ.path e x
  have heq : Evidence.translate r τ.path e x τ.memo =
      (verdict, { τ.memo with hits := τ.memo.hits + 1 }) := by
    rw [Evidence.translate, hwork, memoised_of_finished h]
  rw [translate, heq]
  rfl

end Translator

/-- After any calls, nothing is in progress, there is one entry for each miss, and no more cycles
than hits. Later calls keep every verdict. A pair that is asked for once more, after whatever other
calls, gets the same verdict at the cost of a hit, with any other reasoner in the place of the one
that was asked. -/
theorem final_after (r : Reasoner) (calls later : List (Expression × Term)) :
    (Translator.after r calls).memo.Balanced ∧
      (Translator.after r calls).memo.Below (Translator.after r (calls ++ later)).memo ∧
      ∀ (e : Expression) (x : Term) (other : Reasoner),
        (((Translator.after r calls).translate r e x).2.run r later).translate other e x =
          (((Translator.after r calls).translate r e x).1,
            (((Translator.after r calls).translate r e x).2.run r later).counted) := by
  have hbalanced : (Translator.after r calls).memo.Balanced :=
    Translator.balanced_run .empty r calls
  refine ⟨hbalanced, ?_, ?_⟩
  · rw [Translator.after, Translator.after, Translator.run_append]
    exact (Translator.grows_run _ r later).below
  · intro e x other
    -- the call has left its verdict, and the later calls keep it
    have hknown := known_translateWithin r r.definedPairs (Translator.after r calls).path e x
      (hbalanced.idle (e, x))
    have hkept := (Translator.grows_run ((Translator.after r calls).translate r e x).2 r later).kept
      hknown
    exact Translator.translate_of_known hkept other

end GraphConformance
