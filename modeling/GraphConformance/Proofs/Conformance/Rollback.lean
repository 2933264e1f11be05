import GraphConformance.Proofs.Conformance.Steps

/-!
# Taking back is truncation

The steps of a pass only append to what is collected (`Progress.Extends`), also those that fail. A
step that is taken back therefore restores the progress before it by cutting both lists to the
lengths they had: what the failed step appended goes, and nothing else.
-/

set_option autoImplicit false

namespace GraphConformance

namespace Conformance

open Evidence

namespace Progress

/-- The progress with its lists cut to given lengths. -/
def truncate (p : Progress) (defaults translated : Nat) : Progress :=
  { p with
    defaults := p.defaults.take defaults
    translated := p.translated.take translated }

/-- What was collected is still there, and what was collected since comes after it. -/
structure Extends (p q : Progress) : Prop where
  defaults : p.defaults <+: q.defaults
  translated : p.translated <+: q.translated

namespace Extends

variable {p q s : Progress}

theorem of_eq (hd : q.defaults = p.defaults) (ht : q.translated = p.translated) : p.Extends q :=
  ⟨hd ▸ List.prefix_refl _, ht ▸ List.prefix_refl _⟩

theorem trans (h : p.Extends q) (h' : q.Extends s) : p.Extends s :=
  ⟨h.defaults.trans h'.defaults, h.translated.trans h'.translated⟩

/-- The progress after a part of a pass that is taken back. -/
theorem rollBack (q p : Progress) : p.Extends (q.rollBack p) :=
  .of_eq rfl rfl

theorem rollBack_eq_truncate (h : p.Extends q) :
    q.rollBack p = q.truncate p.defaults.length p.translated.length := by
  have hd := List.prefix_iff_eq_take.mp h.defaults
  have ht := List.prefix_iff_eq_take.mp h.translated
  unfold Progress.rollBack truncate
  rw [← hd, ← ht]

end Extends

end Progress

namespace Pass

variable {pass : Pass} {individual template : Term} {p q : Progress}

/-! ## The steps append -/

theorem extends_addDefaults (pass : Pass) (individual template : Term) (p : Progress) :
    p.Extends (pass.addDefaults individual template p) := by
  unfold addDefaults
  split
  · exact ⟨Distinct.prefix_union _ _, List.prefix_refl _⟩
  · exact .of_eq rfl rfl

theorem translate_defaults {result : Verdict}
    (h : pass.translate individual template p = (result, q)) : q.defaults = p.defaults := by
  unfold translate at h
  split at h
  · obtain ⟨-, rfl⟩ := Prod.mk.inj h
    rfl
  · obtain ⟨-, rfl⟩ := Prod.mk.inj h
    rfl

theorem extends_translate {result : Verdict}
    (h : pass.translate individual template p = (result, q)) : p.Extends q :=
  .of_eq (translate_defaults h) (runs_translate h).2

theorem extends_passSubject {required : Bool} {result : Except Failure Unit}
    (h : pass.passSubject required individual template p = (result, q)) : p.Extends q := by
  have hfilled := pass.extends_addDefaults individual template p
  unfold passSubject at h
  dsimp only at h
  split at h
  · split at h
    · rename_i statements q' hq'
      obtain ⟨-, rfl⟩ := Prod.mk.inj h
      exact (hfilled.trans (extends_translate hq')).trans
        ⟨List.prefix_refl _, Distinct.prefix_union _ _⟩
    · rename_i failure q' hq'
      -- a failure is answered with what was filled in, or the subject is skipped
      split at h
      · obtain ⟨-, rfl⟩ := Prod.mk.inj h
        exact hfilled.trans (extends_translate hq')
      · obtain ⟨-, rfl⟩ := Prod.mk.inj h
        exact .rollBack q' p
  · obtain ⟨-, rfl⟩ := Prod.mk.inj h
    exact hfilled

theorem extends_passSubjects {mapping : Mapping} {pairs : List (Term × Term)}
    {result : Except Failure Unit} (h : pass.passSubjects mapping pairs p = (result, q)) :
    p.Extends q := by
  induction pairs generalizing p with
  | nil =>
    obtain ⟨-, rfl⟩ := Prod.mk.inj h
    exact .of_eq rfl rfl
  | cons pair rest ih =>
    obtain ⟨individual, template⟩ := pair
    rw [passSubjects] at h
    split at h
    · rename_i failure q' hq'
      obtain ⟨-, rfl⟩ := Prod.mk.inj h
      exact extends_passSubject hq'
    · rename_i q' hq'
      exact (extends_passSubject hq').trans (ih h)

theorem extends_matchSubjects {graph templateGraph : Term} {result : Except Failure Mapping}
    (h : pass.matchSubjects graph templateGraph p = (result, q)) : p.Extends q := by
  unfold matchSubjects at h
  dsimp only at h
  split at h
  · obtain ⟨-, rfl⟩ := Prod.mk.inj h
    exact .of_eq rfl rfl
  · split at h
    · rename_i failure q' hq'
      obtain ⟨-, rfl⟩ := Prod.mk.inj h
      exact extends_passSubjects hq'
    · rename_i q' hq'
      obtain ⟨-, rfl⟩ := Prod.mk.inj h
      exact extends_passSubjects hq'

theorem objectStatements_defaults {result : Except Failure (List Triple)}
    (h : pass.objectStatements individual template p = (result, q)) : q.defaults = p.defaults := by
  unfold objectStatements at h
  split at h
  · obtain ⟨-, rfl⟩ := Prod.mk.inj h
    rfl
  · split at h
    · obtain ⟨-, rfl⟩ := Prod.mk.inj h
      rfl
    · exact translate_defaults h

theorem extends_objectStatements {result : Except Failure (List Triple)}
    (h : pass.objectStatements individual template p = (result, q)) : p.Extends q :=
  .of_eq (objectStatements_defaults h) (runs_objectStatements h).2

theorem extends_passObjects {pairs : List (Term × Term)} {statements : List Triple}
    {result : Except Failure (List Triple)}
    (h : pass.passObjects pairs statements p = (result, q)) : p.Extends q := by
  induction pairs generalizing p statements with
  | nil =>
    obtain ⟨-, rfl⟩ := Prod.mk.inj h
    exact .of_eq rfl rfl
  | cons pair rest ih =>
    obtain ⟨individual, template⟩ := pair
    have hfilled := pass.extends_addDefaults individual template p
    rw [passObjects] at h
    split at h
    · split at h
      · rename_i failure q' hq'
        obtain ⟨-, rfl⟩ := Prod.mk.inj h
        exact hfilled.trans (extends_objectStatements hq')
      · rename_i found q' hq'
        exact (hfilled.trans (extends_objectStatements hq')).trans (ih h)
    · exact hfilled.trans (ih h)

theorem extends_matchObjectsOf {subject : Term} {result : Except Failure (Mapping × List Triple)}
    (h : pass.matchObjectsOf subject template p = (result, q)) : p.Extends q := by
  unfold matchObjectsOf at h
  dsimp only at h
  split at h
  · obtain ⟨-, rfl⟩ := Prod.mk.inj h
    exact .of_eq rfl rfl
  · split at h
    · rename_i failure q' hq'
      obtain ⟨-, rfl⟩ := Prod.mk.inj h
      exact extends_passObjects hq'
    · rename_i found q' hq'
      obtain ⟨-, rfl⟩ := Prod.mk.inj h
      exact extends_passObjects hq'

/-! ## The three places where something is taken back -/

/-- A graph of the template that is rejected: both lists are cut. -/
theorem rollBack_matchSubjects {graph templateGraph : Term} {result : Except Failure Mapping}
    (h : pass.matchSubjects graph templateGraph p = (result, q)) :
    q.rollBack p = q.truncate p.defaults.length p.translated.length :=
  (extends_matchSubjects h).rollBack_eq_truncate

/-- An optional subject that cannot be translated: it is enough to cut the defaults. -/
theorem rollBack_translate {result : Verdict}
    (h : pass.translate individual template (pass.addDefaults individual template p) =
      (result, q)) :
    q.rollBack p = { q with defaults := q.defaults.take p.defaults.length } := by
  have hextends := (pass.extends_addDefaults individual template p).trans (extends_translate h)
  have htranslated := (runs_translate h).2.trans addDefaults_translated
  rw [hextends.rollBack_eq_truncate, Progress.truncate, htranslated, List.take_length]

/-- A subject whose objects fail: again only defaults were added. -/
theorem rollBack_matchObjectsOf {subject : Term} {result : Except Failure (Mapping × List Triple)}
    (h : pass.matchObjectsOf subject template p = (result, q)) :
    q.rollBack p = { q with defaults := q.defaults.take p.defaults.length } := by
  rw [(extends_matchObjectsOf h).rollBack_eq_truncate, Progress.truncate,
    (runs_matchObjectsOf h).2, List.take_length]

end Pass

end Conformance

end GraphConformance
