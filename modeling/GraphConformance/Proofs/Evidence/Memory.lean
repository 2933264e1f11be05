import GraphConformance.Proofs.Evidence.Translation

/-!
# What translation does to the memory

A look-up of a pair has one of three ends (`memoised_of_inProgress`, `memoised_of_finished`,
`memoised_of_none`). Whatever is kept by these three is kept by every translation
(`moves_translateWithin`). So a memory only grows: entries stay as they are, what is new is
finished, and the count of cycles never falls (`grows_translateWithin`).
-/

set_option autoImplicit false

namespace GraphConformance.Evidence

/-! ## Looking up a pair -/

namespace Memo

/-- What is known about a pair. -/
def known (m : Memo) (p : Expression × Term) : Option Entry := m.entries.get? p

/-- The memory when the translation of a new pair starts. -/
def start (m : Memo) (p : Expression × Term) : Memo :=
  { m with misses := m.misses + 1 }.mark p.1 p.2

theorem known_empty (p : Expression × Term) : empty.known p = none := rfl

theorem known_start (m : Memo) (p q : Expression × Term) :
    (m.start p).known q = if q = p then some .inProgress else m.known q :=
  Table.get?_insert _ _ _ _

theorem known_finish (m : Memo) (e : Expression) (x : Term) (verdict : Verdict)
    (q : Expression × Term) :
    (m.finish e x verdict).known q =
      if q = (e, x) then some (.finished verdict) else m.known q :=
  Table.get?_insert _ _ _ _

end Memo

theorem memoised_of_inProgress {e : Expression} {x : Term} {work : Work} {m : Memo}
    (h : m.known (e, x) = some .inProgress) :
    memoised e x work m = (.ok [], { m with hits := m.hits + 1, cycles := m.cycles + 1 }) := by
  have h' : m.entries.get? (e, x) = some .inProgress := h
  simp [memoised, Memo.find, h', Entry.isInProgress]

theorem memoised_of_finished {e : Expression} {x : Term} {work : Work} {m : Memo}
    {verdict : Verdict} (h : m.known (e, x) = some (.finished verdict)) :
    memoised e x work m = (verdict, { m with hits := m.hits + 1 }) := by
  have h' : m.entries.get? (e, x) = some (.finished verdict) := h
  simp [memoised, Memo.find, h', Entry.isInProgress]

theorem memoised_of_none {e : Expression} {x : Term} {work : Work} {m : Memo}
    (h : m.known (e, x) = none) :
    memoised e x work m =
      ((work (m.start (e, x))).1,
        (work (m.start (e, x))).2.finish e x (work (m.start (e, x))).1) := by
  have h' : m.entries.get? (e, x) = none := h
  simp [memoised, Memo.find, h', Memo.start]

/-! ## What every translation keeps -/

/-- A computation moves every memory to a related one. -/
def Moves {α : Type} (R : Memo → Memo → Prop) (x : Recall α) : Prop := ∀ m, R m (x m).2

section Moves

variable {R : Memo → Memo → Prop} (refl : ∀ m, R m m)
  (trans : ∀ {m₁ m₂ m₃}, R m₁ m₂ → R m₂ m₃ → R m₁ m₃)

include refl trans

/-- Moving along a preorder respects return and sequencing. -/
def moving : Simulation Recall Recall where
  Rel x _ := Moves R x
  rel_pure _ := refl
  rel_bind hx hf m := trans (hx m) (hf _ _)

/-- What is kept by every look-up among pairs that enclose their questions is kept by every
translation among them. -/
theorem moves_translateWithin_of {r : Reasoner} {U : Expression → Term → Prop}
    (hU : r.Encloses U)
    (memoised : ∀ e x work, U e x → Moves R (outcome work) → Moves R (outcome (memoised e x work)))
    (depth : Nat) (path : ClassPath) (e : Expression) (x : Term) (h : U e x) :
    Moves R (outcome (translateWithin r depth path e x)) := by
  induction depth, e, x using translateWithin_induction r generalizing path with
  | round depth e x hpart hdefinition =>
    obtain ⟨work, hwork, hround⟩ := translateWithin_eq r depth path e x
    rw [hwork]
    have hrel : (moving refl trans).Rel (outcome work) (outcome work) := by
      rw [hround]
      apply (moving refl trans).round
      · intro e' x' h'
        exact hpart e' x' h' path (hU.part h h')
      · intro d h'
        -- without depth left, the work does not touch the memory
        cases depth with
        | zero => exact refl
        | succ below => exact hdefinition below d rfl h' _ (hU.definition h h')
    exact memoised e x work h hrel

/-- What every look-up keeps is kept by every translation. -/
theorem moves_translateWithin
    (memoised : ∀ e x work, Moves R (outcome work) → Moves R (outcome (memoised e x work)))
    (r : Reasoner) (depth : Nat) (path : ClassPath) (e : Expression) (x : Term) :
    Moves R (outcome (translateWithin r depth path e x)) :=
  moves_translateWithin_of refl trans (U := fun _ _ => True)
    ⟨fun _ _ => trivial, fun _ _ => trivial⟩ (fun e x work _ => memoised e x work) depth path e x
    trivial

end Moves

/-! ## Growth -/

namespace Memo

/-- Entries stay, what is new is finished, and the count of cycles does not fall. -/
structure Grows (m m' : Memo) : Prop where
  kept : ∀ {p entry}, m.known p = some entry → m'.known p = some entry
  finished : ∀ {p}, m.known p = none → m'.known p ≠ some .inProgress
  cycles_le : m.cycles ≤ m'.cycles

namespace Grows

theorem refl (m : Memo) : m.Grows m :=
  ⟨id, fun h h' => by rw [h] at h'; exact absurd h' (by simp), Nat.le_refl _⟩

theorem trans {m₁ m₂ m₃ : Memo} (h : m₁.Grows m₂) (h' : m₂.Grows m₃) : m₁.Grows m₃ := by
  refine ⟨fun hp => h'.kept (h.kept hp), ?_, Nat.le_trans h.cycles_le h'.cycles_le⟩
  intro p hp
  cases hp₂ : m₂.known p with
  | none => exact h'.finished hp₂
  | some entry =>
    rw [h'.kept hp₂, ← hp₂]
    exact h.finished hp

theorem known_ne_none {m m' : Memo} (h : m.Grows m') {p : Expression × Term}
    (hp : m.known p ≠ none) : m'.known p ≠ none := by
  obtain ⟨entry, he⟩ := Option.ne_none_iff_exists'.mp hp
  rw [h.kept he]
  simp

end Grows

end Memo

/-- A look-up lets the memory grow when its work does. -/
theorem grows_memoised {e : Expression} {x : Term} {work : Work}
    (h : Moves Memo.Grows (outcome work)) : Moves Memo.Grows (outcome (memoised e x work)) := by
  intro m
  show m.Grows (memoised e x work m).2
  cases hm : m.known (e, x) with
  | none =>
    rw [memoised_of_none hm]
    have hgrows : (m.start (e, x)).Grows (work (m.start (e, x))).2 := h (m.start (e, x))
    refine ⟨?_, ?_, hgrows.cycles_le⟩
    -- the pair itself was unknown, and is the only one whose mark is lifted
    · intro p entry hp
      have hne : p ≠ (e, x) := by
        rintro rfl
        exact absurd (hm.symm.trans hp) (by simp)
      rw [Memo.known_finish, if_neg hne]
      apply hgrows.kept
      rw [Memo.known_start, if_neg hne, hp]
    · intro p hp
      rw [Memo.known_finish]
      by_cases heq : p = (e, x)
      · simp [heq]
      · rw [if_neg heq]
        apply hgrows.finished
        rw [Memo.known_start, if_neg heq, hp]
  | some entry =>
    cases entry with
    | inProgress =>
      rw [memoised_of_inProgress hm]
      exact ⟨id, (Memo.Grows.refl m).finished, Nat.le_succ _⟩
    | finished verdict =>
      rw [memoised_of_finished hm]
      exact ⟨id, (Memo.Grows.refl m).finished, Nat.le_refl _⟩

theorem grows_translateWithin (r : Reasoner) (depth : Nat) (path : ClassPath) (e : Expression)
    (x : Term) : Moves Memo.Grows (outcome (translateWithin r depth path e x)) :=
  moves_translateWithin Memo.Grows.refl Memo.Grows.trans (fun _ _ _ => grows_memoised) r depth path
    e x

theorem grows_unfoldWithin (r : Reasoner) (depth : Nat) (path : ClassPath) (d : Expression)
    (x : Term) : Moves Memo.Grows (outcome (unfoldWithin r depth path d x)) := by
  cases depth with
  | zero => exact Memo.Grows.refl
  | succ below => exact grows_translateWithin r below path d x

end GraphConformance.Evidence
