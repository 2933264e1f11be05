import GraphConformance.Proofs.Evidence.Details
import GraphConformance.Proofs.Knowledge.Questions

/-!
# What translation blames

When a translation fails, it blames a membership: a restriction, a union, a complement, a class
without definition or the empty class (`Failure.IsViolation`), and so do the failures that are kept
as its causes and branches. It never blames a missing individual when it starts from one that is
known and the values of known individuals are known (`Reasoner.Answers`): each failure describes
its pair, and those of known individuals are violations (`Reasoner.Describes.isViolation`).
-/

set_option autoImplicit false

namespace GraphConformance

open Vocabulary Evidence

/-! ## Violations -/

/-- Kinds of failures of a membership. -/
def FailureKind.IsViolation {φ : Type} : FailureKind φ → Prop
  | restrictionViolation .. | unionExhausted _ | complementViolation | notAMember
  | unsatisfiable => True
  | _ => False

namespace Failure

/-- The failure is that of a membership, and so is each failure inside it. -/
inductive IsViolation : Failure → Prop where
  | of {f : Failure} (stage : f.stage = .restriction) (kind : f.kind.IsViolation)
      (parts : ∀ g ∈ f.parts, IsViolation g) : IsViolation f

namespace IsViolation

variable {f g : Failure}

theorem stage (h : f.IsViolation) : f.stage = .restriction := by
  cases h with
  | of stage kind parts => exact stage

theorem kind (h : f.IsViolation) : f.kind.IsViolation := by
  cases h with
  | of stage kind parts => exact kind

theorem of_mem_parts (h : f.IsViolation) (hg : g ∈ f.parts) : g.IsViolation := by
  cases h with
  | of stage kind parts => exact parts g hg

/-- Whatever is inside a violation is one. -/
theorem of_contains (h : f.IsViolation) (hg : f.Contains g) : g.IsViolation := by
  induction hg with
  | single hg => exact h.of_mem_parts hg
  | tail _ hg ih => exact ih.of_mem_parts hg

end IsViolation

end Failure

/-- The reasoner answers about known individuals, and the values that it gives are known. -/
structure Reasoner.Answers (r : Reasoner) (Known : Term → Prop) : Prop where
  types : ∀ {x}, x.isIndividual = true → Known x → ∃ types, r.types x = .ok types
  values : ∀ {x} p, Known x → ∃ vs, r.values? p x = some vs ∧ ∀ v ∈ vs, Known v

namespace Reasoner

variable {r : Reasoner} {Known : Term → Prop} {x : Term}

theorem Answers.types_ne_error (hr : r.Answers Known) (hx : x.isIndividual = true)
    (hknown : Known x) (error : Knowledge.QueryError) : r.types x ≠ .error error := by
  obtain ⟨types, htypes⟩ := hr.types hx hknown
  rw [htypes]
  simp

theorem Answers.edges_ne_error (hr : r.Answers Known) (hx : x.isIndividual = true)
    (hknown : Known x) (error : Knowledge.QueryError) : r.edges x ≠ .error error := by
  obtain ⟨vs, hvs, -⟩ := hr.values x hknown
  intro hedges
  cases x with
  | literal l => exact absurd hx (by simp [Term.isIndividual])
  | iri i => exact absurd hvs (by simp [values?, hedges, Except.toOption])
  | blank b => exact absurd hvs (by simp [values?, hedges, Except.toOption])

/-- A failure of a known individual blames a membership, and so do those inside it. -/
theorem Describes.isViolation {e : Expression} {f : Failure} (hr : r.Answers Known)
    (h : r.Describes e x f) (hknown : Known x) : f.IsViolation := by
  have hvalue : ∀ {p y v vs}, Known y → r.values? p y = some vs → v ∈ vs → Known v := by
    intro p y v vs hy hvs hv
    obtain ⟨ws, hws, hall⟩ := hr.values p hy
    obtain rfl : vs = ws := Option.some.inj (hvs.symm.trans hws)
    exact hall v hv
  have hsingle : ∀ {y : Term} {g : Failure} {kind : FailureKind Failure}, g.IsOf y kind →
      kind.IsViolation → g.parts = [] → g.IsViolation := by
    intro y g kind hg hkind hparts
    exact .of hg.stage (hg.kind ▸ hkind) (by simp [hparts])
  induction h with
  | bottom h => exact hsingle h trivial (by simp [Failure.parts, h.kind])
  | notMember h => exact hsingle h trivial (by simp [Failure.parts, h.kind])
  | complement h => exact hsingle h trivial (by simp [Failure.parts, h.kind])
  | refused hx herror h =>
    rcases herror with herror | herror
    · exact absurd herror (hr.types_ne_error hx hknown _)
    · exact absurd herror (hr.edges_ne_error hx hknown _)
  | part he h ih => exact ih hknown
  | definition hd h ih => exact ih hknown
  | union hlength hcauses h ih =>
    refine .of h.stage (by rw [h.kind]; trivial) ?_
    intro g hg
    rw [Failure.parts, h.kind] at hg
    obtain ⟨i, hi, rfl⟩ := List.mem_iff_getElem.mp hg
    exact ih i (hlength ▸ hi) hi hknown
  | atLeast hvs hn h => exact hsingle h trivial (by simp [Failure.parts, h.kind])
  | atMost hvs hn h => exact hsingle h trivial (by simp [Failure.parts, h.kind])
  | exactlyFew hvs hn h => exact hsingle h trivial (by simp [Failure.parts, h.kind])
  | exactlyNone hvs hn h => exact hsingle h trivial (by simp [Failure.parts, h.kind])
  | selfOf hvs hx h => exact hsingle h trivial (by simp [Failure.parts, h.kind])
  | noValue hvs h => exact hsingle h trivial (by simp [Failure.parts, h.kind])
  | noneOf hvs hlast hcause h ih =>
    refine .of h.stage (by rw [h.kind]; trivial) ?_
    intro g hg
    rw [Failure.parts, h.kind] at hg
    rw [show g = _ by simpa using hg]
    exact ih (hvalue hknown hvs (List.mem_of_getLast? hlast))
  | onlyOf hvs hverdicts hv hfails hearlier hcause hobserved hn h ih =>
    refine .of h.stage (by rw [h.kind]; trivial) ?_
    intro g hg
    rw [Failure.parts, h.kind] at hg
    rw [show g = _ by simpa using hg]
    exact ih (hvalue hknown hvs (List.mem_of_getElem? hv))

/-- Every translation of a known individual blames memberships only. -/
theorem Answers.isViolation_of_translateWithin (hr : r.Answers Known) {m : Memo}
    (hm : m.Reached r) {depth : Nat} {path : ClassPath} {e : Expression} {f : Failure}
    (hknown : Known x) (h : (translateWithin r depth path e x m).1 = .error f) : f.IsViolation := by
  obtain ⟨hdescribes, -⟩ := tells_translateWithin r depth path e x m (truthful_of_reached hm)
  exact (hdescribes f h).isViolation hr hknown

end Reasoner

/-! ## Knowledge -/

namespace Knowledge

/-- What the store mentions can be asked about, and is mentioned with its values. -/
theorem answers_reasoner (k : Knowledge) : k.reasoner.Answers k.Knows where
  types := by
    intro x hx hknown
    exact ⟨_, ifMentioned_eq_ok_iff.mpr ⟨hknown.mentioned hx, rfl⟩⟩
  values := by
    intro x p hknown
    rw [reasoner_values?, values?]
    split
    · rename_i hx
      rw [if_pos (hknown.mentioned hx)]
      refine ⟨_, rfl, ?_⟩
      intro v hv
      obtain ⟨t, ht, rfl⟩ := List.mem_map.mp hv
      exact .of_object (List.mem_of_mem_filter ht)
    · exact ⟨[], rfl, by simp⟩

end Knowledge

end GraphConformance
