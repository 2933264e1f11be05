import GraphConformance.Proofs.Conformance.Contents

/-!
# Two passes side by side

Two passes that have collected the same, and whose translators remember the same of all pairs but
those of a set `H`, take each step alike as long as the first one meets no pair of `H`: either both
succeed with the same result or both fail, and they remain alike. There is one lemma for each step
of a pass (`alongside_translate` up to `alike_matchObjects`), and `toOption_finish_of_alike` for its
end.
-/

set_option autoImplicit false

namespace GraphConformance.Conformance

open Evidence

variable {pass : Pass} {k : Knowledge} {H : Set (Expression × Term)} {individual template : Term}
  {p q s : Progress}

/-- The same is collected, and the translators remember the same of all pairs but those of `H`. -/
structure Progress.Alike (p q : Progress) (k : Knowledge) (H : Set (Expression × Term)) :
    Prop where
  defaults : p.defaults = q.defaults
  translated : p.translated = q.translated
  memo : p.translator.memo.Alike q.translator.memo k.reasoner ∅ H
  leftPath : p.translator.path = .empty
  rightPath : q.translator.path = .empty

/-- What was collected since is taken back on both sides. -/
theorem Progress.Alike.rollBack {p' q' : Progress} (h : p.Alike q k H) (h' : p'.Alike q' k H) :
    (p'.rollBack p).Alike (q'.rollBack q) k H :=
  ⟨h.defaults, h.translated, h'.memo, h'.leftPath, h'.rightPath⟩

/-- The translator has met no pair of `H`. -/
def Progress.Avoids (p : Progress) (H : Set (Expression × Term)) : Prop :=
  ∀ pair ∈ H, p.translator.memo.known pair = none

/-- What was not met at the end was not met before. -/
theorem Progress.Avoids.of_runs (hq : q.Avoids H) (h : pass.Runs p q) : p.Avoids H := by
  intro pair hpair
  obtain ⟨calls, -, hcalls⟩ := h
  by_contra hne
  have hknown := (p.translator.grows_run pass.knowledge.reasoner calls).known_ne_none hne
  rw [← hcalls] at hknown
  exact hknown (hq pair hpair)

/-- Two steps that succeed with the same result, or fail both, and remain alike. -/
inductive Alongside {α : Type} (k : Knowledge) (H : Set (Expression × Term)) :
    Step α → Step α → Prop
  | ok (a : α) {p q : Progress} (h : p.Alike q k H) : Alongside k H (.ok a, p) (.ok a, q)
  | error (e e' : Failure) {p q : Progress} (h : p.Alike q k H) :
      Alongside k H (.error e, p) (.error e', q)

theorem Alongside.of_toOption {α : Type} {r r' : Except Failure α} (hr : r.toOption = r'.toOption)
    (h : p.Alike q k H) : Alongside k H (r, p) (r', q) := by
  cases r with
  | ok a =>
    cases r' with
    | ok a' =>
      obtain rfl := Option.some.inj hr
      exact .ok a h
    | error e' => exact absurd hr (by simp [Except.toOption])
  | error e =>
    cases r' with
    | ok a' => exact absurd hr (by simp [Except.toOption])
    | error e' => exact .error e e' h

namespace Pass

/-! ## Pairs -/

theorem alike_addDefaults (pass : Pass) (individual template : Term) (h : p.Alike q k H) :
    (pass.addDefaults individual template p).Alike
      (pass.addDefaults individual template q) k H := by
  unfold addDefaults
  split
  · exact { h with defaults := by rw [h.defaults] }
  · exact h

theorem translate_of_typeProfile {target : Expression}
    (h : pass.knowledge.typeProfile template = .ok target) (p : Progress) :
    pass.translate individual template p =
      ((p.translator.translate pass.knowledge.reasoner target individual).1,
        { p with
          translator :=
            (p.translator.translate pass.knowledge.reasoner target individual).2 }) := by
  unfold translate
  rw [h]

/-- The one step in which the translators are asked. -/
theorem alongside_translate (h : p.Alike q pass.knowledge H)
    (hH : (pass.translate individual template p).2.Avoids H) :
    Alongside pass.knowledge H (pass.translate individual template p)
      (pass.translate individual template q) := by
  cases htarget : pass.knowledge.typeProfile template with
  | error e =>
    unfold translate
    rw [htarget]
    exact .error _ _ h
  | ok target =>
    rw [translate_of_typeProfile htarget] at hH ⊢
    rw [translate_of_typeProfile htarget]
    obtain ⟨defaults, translated, ⟨memo, path⟩⟩ := p
    obtain ⟨defaults', translated', ⟨memo', path'⟩⟩ := q
    obtain rfl : path = .empty := h.leftPath
    obtain rfl : path' = .empty := h.rightPath
    have hresult := alike_translateWithin pass.knowledge.reasoner.definedPairs target individual
      .empty (pass.knowledge.suffices_start individual) List.mem_cons_self (by simp) h.memo hH
    exact .of_toOption hresult.1 ⟨h.defaults, h.translated, hresult.2, rfl, rfl⟩

/-! ## Subjects -/

theorem alongside_passSubject {required : Bool} (h : p.Alike q pass.knowledge H)
    (hH : (pass.passSubject required individual template p).2.Avoids H) :
    Alongside pass.knowledge H (pass.passSubject required individual template p)
      (pass.passSubject required individual template q) := by
  have hfilled := alike_addDefaults pass individual template h
  unfold passSubject at hH ⊢
  dsimp only at hH ⊢
  by_cases hon : pass.options.translate = true
  · simp only [hon, if_true] at hH ⊢
    have hstep : Alongside pass.knowledge H
        (pass.translate individual template (pass.addDefaults individual template p))
        (pass.translate individual template (pass.addDefaults individual template q)) := by
      apply alongside_translate hfilled
      -- the translator is not used again in this step
      generalize pass.translate individual template (pass.addDefaults individual template p) = x
        at hH
      obtain ⟨result, s⟩ := x
      cases result with
      | ok statements => exact hH
      | error e => cases required <;> exact hH
    generalize pass.translate individual template (pass.addDefaults individual template p) = x
      at hstep
    generalize pass.translate individual template (pass.addDefaults individual template q) = y
      at hstep
    cases hstep with
    | ok statements h' => exact .ok () { h' with translated := by rw [h'.translated] }
    | error e e' h' =>
      -- both passes answer the failure, or both skip the subject
      cases required with
      | true => exact .error e e' h'
      | false =>
        exact .ok () (h.rollBack h')
  · simp only [hon] at hH ⊢
    exact .ok () hfilled

theorem alongside_passSubjects {mapping : Mapping} {pairs : List (Term × Term)}
    (h : p.Alike q pass.knowledge H)
    (hH : (pass.passSubjects mapping pairs p).2.Avoids H) :
    Alongside pass.knowledge H (pass.passSubjects mapping pairs p)
      (pass.passSubjects mapping pairs q) := by
  induction pairs generalizing p q with
  | nil => exact .ok () h
  | cons pair rest ih =>
    obtain ⟨individual, template⟩ := pair
    rw [passSubjects] at hH ⊢
    rw [passSubjects]
    have hstep : Alongside pass.knowledge H
        (pass.passSubject (mapping.isRequired individual) individual template p)
        (pass.passSubject (mapping.isRequired individual) individual template q) := by
      apply alongside_passSubject h
      -- after a pair that succeeds the translator is run further, after a failure it is not
      generalize pass.passSubject (mapping.isRequired individual) individual template p = x at hH
      obtain ⟨result, s⟩ := x
      cases result with
      | ok u => exact hH.of_runs (runs_passSubjects rfl)
      | error e => exact hH
    generalize pass.passSubject (mapping.isRequired individual) individual template p = x
      at hstep hH
    generalize pass.passSubject (mapping.isRequired individual) individual template q = y at hstep
    cases hstep with
    | ok u h' => exact ih h' hH
    | error e e' h' => exact .error e e' h'

theorem alongside_matchSubjects {graph templateGraph : Term} (h : p.Alike q pass.knowledge H)
    (hH : (pass.matchSubjects graph templateGraph p).2.Avoids H) :
    Alongside pass.knowledge H (pass.matchSubjects graph templateGraph p)
      (pass.matchSubjects graph templateGraph q) := by
  unfold matchSubjects at hH ⊢
  dsimp only at hH ⊢
  split
  · exact .error _ _ h
  · rename_i mapping hfind
    rw [hfind] at hH
    dsimp only at hH
    have hstep : Alongside pass.knowledge H (pass.passSubjects mapping mapping.pairs p)
        (pass.passSubjects mapping mapping.pairs q) := by
      apply alongside_passSubjects h
      generalize pass.passSubjects mapping mapping.pairs p = x at hH
      obtain ⟨result, s⟩ := x
      cases result with
      | ok u => exact hH
      | error e => exact hH
    generalize pass.passSubjects mapping mapping.pairs p = x at hstep
    generalize pass.passSubjects mapping mapping.pairs q = y at hstep
    cases hstep with
    | ok u h' => exact .ok mapping h'
    | error e e' h' => exact .error e e' h'

/-! ## Objects -/

theorem alongside_objectStatements (h : p.Alike q pass.knowledge H)
    (hH : (pass.objectStatements individual template p).2.Avoids H) :
    Alongside pass.knowledge H (pass.objectStatements individual template p)
      (pass.objectStatements individual template q) := by
  unfold objectStatements at hH ⊢
  cases hprofile : pass.knowledge.typeProfile individual with
  | error e => exact .error _ _ h
  | ok profile =>
    rw [hprofile] at hH
    by_cases htop : profile = .top
    · simp only [htop, if_true]
      exact .ok _ h
    · simp only [htop, if_false] at hH ⊢
      exact alongside_translate h hH

theorem alongside_passObjects {pairs : List (Term × Term)} {statements : List Triple}
    (h : p.Alike q pass.knowledge H)
    (hH : (pass.passObjects pairs statements p).2.Avoids H) :
    Alongside pass.knowledge H (pass.passObjects pairs statements p)
      (pass.passObjects pairs statements q) := by
  induction pairs generalizing p q statements with
  | nil => exact .ok statements h
  | cons pair rest ih =>
    obtain ⟨individual, template⟩ := pair
    have hfilled := alike_addDefaults pass individual template h
    rw [passObjects] at hH ⊢
    rw [passObjects]
    by_cases hon : pass.options.translate = true
    · simp only [hon, if_true] at hH ⊢
      have hstep : Alongside pass.knowledge H
          (pass.objectStatements individual template (pass.addDefaults individual template p))
          (pass.objectStatements individual template (pass.addDefaults individual template q)) := by
        apply alongside_objectStatements hfilled
        generalize pass.objectStatements individual template
          (pass.addDefaults individual template p) = x at hH
        obtain ⟨result, s⟩ := x
        cases result with
        | ok found => exact hH.of_runs (runs_passObjects rfl).1
        | error e => exact hH
      generalize pass.objectStatements individual template
        (pass.addDefaults individual template p) = x at hstep hH
      generalize pass.objectStatements individual template
        (pass.addDefaults individual template q) = y at hstep
      cases hstep with
      | ok found h' => exact ih h' hH
      | error e e' h' => exact .error e e' h'
    · simp only [hon] at hH ⊢
      exact ih hfilled hH

theorem alongside_matchObjectsOf {subject : Term} (h : p.Alike q pass.knowledge H)
    (hH : (pass.matchObjectsOf subject template p).2.Avoids H) :
    Alongside pass.knowledge H (pass.matchObjectsOf subject template p)
      (pass.matchObjectsOf subject template q) := by
  unfold matchObjectsOf at hH ⊢
  dsimp only at hH ⊢
  split
  · exact .error _ _ h
  · rename_i mapping hfind
    rw [hfind] at hH
    dsimp only at hH
    have hstep : Alongside pass.knowledge H (pass.passObjects mapping.pairs [] p)
        (pass.passObjects mapping.pairs [] q) := by
      apply alongside_passObjects h
      generalize pass.passObjects mapping.pairs [] p = x at hH
      obtain ⟨result, s⟩ := x
      cases result with
      | ok statements => exact hH
      | error e => exact hH
    generalize pass.passObjects mapping.pairs [] p = x at hstep
    generalize pass.passObjects mapping.pairs [] q = y at hstep
    cases hstep with
    | ok statements h' => exact .ok (mapping, statements) h'
    | error e e' h' => exact .error e e' h'

/-- The objects of the same subjects are mapped alike, and if there is a failure there are two. -/
theorem alike_matchObjects {pairs : List (Term × Term)} {mapped : Table Term Mapping}
    {failure failure' : Option Failure} (h : p.Alike q pass.knowledge H)
    (hfailure : failure.isSome = failure'.isSome)
    (hH : (pass.matchObjects pairs mapped failure p).2.Avoids H) :
    (pass.matchObjects pairs mapped failure p).1.1 =
        (pass.matchObjects pairs mapped failure' q).1.1 ∧
      (pass.matchObjects pairs mapped failure p).1.2.isSome =
        (pass.matchObjects pairs mapped failure' q).1.2.isSome ∧
      (pass.matchObjects pairs mapped failure p).2.Alike
        (pass.matchObjects pairs mapped failure' q).2 pass.knowledge H := by
  induction pairs generalizing p q mapped failure failure' with
  | nil => exact ⟨rfl, hfailure, h⟩
  | cons pair rest ih =>
    obtain ⟨subject, template⟩ := pair
    rw [matchObjects] at hH ⊢
    rw [matchObjects]
    have hstep : Alongside pass.knowledge H (pass.matchObjectsOf subject template p)
        (pass.matchObjectsOf subject template q) := by
      apply alongside_matchObjectsOf h
      generalize pass.matchObjectsOf subject template p = x at hH
      obtain ⟨result, s⟩ := x
      cases result with
      -- the objects of later subjects are mapped in both cases
      | ok answer =>
        intro pair hpair
        exact hH.of_runs (runs_matchObjects rfl) pair hpair
      | error e =>
        intro pair hpair
        exact hH.of_runs (runs_matchObjects rfl) pair hpair
    generalize pass.matchObjectsOf subject template p = x at hstep hH ⊢
    generalize pass.matchObjectsOf subject template q = y at hstep ⊢
    cases hstep with
    | ok answer h' => exact ih { h' with translated := by rw [h'.translated] } hfailure hH
    | error e e' h' =>
      exact ih (h.rollBack h') rfl hH

/-- Both passes accept the same document, or none. -/
theorem toOption_finish_of_alike {graph : Term} {subjects : Mapping}
    (h : p.Alike q pass.knowledge H)
    (hH : (pass.matchObjects subjects.pairs ∅ none p).2.Avoids H) :
    (pass.finish graph subjects p).toOption = (pass.finish graph subjects q).toOption := by
  obtain ⟨hobjects, hfailure, halike⟩ := alike_matchObjects h rfl hH
  generalize hx : pass.matchObjects subjects.pairs ∅ none p = x at hobjects hfailure halike
  generalize hy : pass.matchObjects subjects.pairs ∅ none q = y at hobjects hfailure halike
  obtain ⟨⟨objects, failure⟩, p'⟩ := x
  obtain ⟨⟨objects', failure'⟩, q'⟩ := y
  obtain rfl : objects = objects' := hobjects
  have hcommit : pass.commit graph subjects objects p' = pass.commit graph subjects objects q' := by
    rw [commit, commit, halike.defaults, halike.translated]
  have hnone : failure = none ↔ failure' = none := by
    rw [← Option.isNone_iff_eq_none, ← Option.isNone_iff_eq_none, ← Option.not_isSome,
      ← Option.not_isSome, hfailure]
  have hok : ∀ d, pass.finish graph subjects p = .ok d ↔ pass.finish graph subjects q = .ok d := by
    intro d
    rw [finish_eq_ok_iff hx, finish_eq_ok_iff hy, hcommit, hnone]
  cases hfinish : pass.finish graph subjects q with
  | ok d => rw [(hok d).mpr hfinish]
  | error e =>
    cases hfinish' : pass.finish graph subjects p with
    | ok d => exact absurd (hfinish.symm.trans ((hok d).mp hfinish')) (by simp)
    | error e' => rfl

end Pass

end GraphConformance.Conformance
