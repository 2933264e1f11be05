import GraphConformance.Evidence.Translator
import GraphConformance.Proofs.Renaming.Knowledge

/-!
# Renamed evidence

Translating a renamed individual against a renamed expression finds the renamed statements, or fails
as before for the renamed individual. The two translators remember renamed verdicts under renamed
pairs (`Memo.Renamed`); every rule, run from such memories, gives verdicts alike and leaves such
memories (`RunAlike`). The rules are taken one by one, then expressions by their structure
(`runAlike_evaluate`), and then definitions inside each other (`runAlike_translateWithin`).

Failures alike have the same stage and the same kind about renamed terms, down to their causes, and
an explanation in the same words (`Failure.Renamed`).
-/

set_option autoImplicit false

namespace GraphConformance

open Vocabulary Knowledge

/-! ## Failures -/

/-- The second kind is the first about renamed terms, and the failures that it holds are related. -/
inductive FailureKind.Renamed (f : BlankNode → BlankNode) {φ : Type} (R : φ → φ → Prop) :
    FailureKind φ → FailureKind φ → Prop
  | structuralMapping : Renamed f R .structuralMapping .structuralMapping
  | resourceMismatch : Renamed f R .resourceMismatch .resourceMismatch
  | missingGraph : Renamed f R .missingGraph .missingGraph
  | restrictionViolation (restriction : Restriction) (property : Term) (expected observed : Nat)
    {cause cause' : Option φ} (h : Option.Rel R cause cause') :
    Renamed f R (.restrictionViolation restriction property expected observed cause)
      (.restrictionViolation restriction (property.rename f) expected observed cause')
  | unionExhausted {branches branches' : List φ} (h : List.Forall₂ R branches branches') :
    Renamed f R (.unionExhausted branches) (.unionExhausted branches')
  | complementViolation : Renamed f R .complementViolation .complementViolation
  | notAMember : Renamed f R .notAMember .notAMember
  | unsatisfiable : Renamed f R .unsatisfiable .unsatisfiable
  | unknownIndividual : Renamed f R .unknownIndividual .unknownIndividual
  | inconsistent {reason reason' : String} (h : Reworded f reason reason') :
    Renamed f R (.inconsistent reason) (.inconsistent reason')

/-- The second failure is the first about renamed terms: the stage is the same, and so is the kind,
down to the causes. -/
inductive Failure.Renamed (f : BlankNode → BlankNode) : Failure → Failure → Prop
  | intro {x x' : Failure} (stage : x'.stage = x.stage)
    (kind : FailureKind.Renamed f (Failure.Renamed f) x.kind x'.kind)
    (individual : x'.individual = x.individual.map (Term.rename f))
    (inClass : x'.inClass = x.inClass.map (Term.rename f))
    (explanation : Reworded f x.explanation x'.explanation) : Failure.Renamed f x x'

/-- The path with other nodes in place of its blank nodes. -/
def ClassPath.rename (f : BlankNode → BlankNode) (path : ClassPath) : ClassPath :=
  ⟨path.classes.map (Term.rename f)⟩

variable {ρ : BlankNode ↪ BlankNode}

theorem Failure.Renamed.explanation {f : BlankNode → BlankNode} {x x' : Failure}
    (h : Failure.Renamed f x x') : Reworded f x.explanation x'.explanation := by
  cases h with
  | intro _ _ _ _ hexplanation => exact hexplanation

/-- A question that is refused about a renamed individual fails as before. -/
theorem Failure.renamed_ofQueryError {f : BlankNode → BlankNode} (stage : Stage)
    {e e' : QueryError} (h : QueryError.Renamed f e e') :
    Failure.Renamed f (.ofQueryError stage e) (.ofQueryError stage e') := by
  have hmessage := h.message
  cases h with
  | unknownIndividual x => exact .intro rfl .unknownIndividual rfl rfl hmessage
  | inconsistent hreason => exact .intro rfl (.inconsistent hreason) rfl rfl hmessage

namespace ClassPath

variable {f : BlankNode → BlankNode}

theorem push_rename (path : ClassPath) (c : Term) :
    (path.push c).rename f = (path.rename f).push (c.rename f) := by
  rw [push, rename, List.map_append]
  rfl

theorem reworded_explain (path : ClassPath) {explanation explanation' : String}
    (h : Reworded f explanation explanation') :
    Reworded f (path.explain explanation) ((path.rename f).explain explanation') := by
  have hdisplay : Reworded f path.display (path.rename f).display := by
    refine .intercalate _ ?_
    rw [rename, List.map_map, List.forall₂_map_left_iff, List.forall₂_map_right_iff]
    exact List.forall₂_same.mpr fun c _ => .shortName c
  obtain ⟨classes⟩ := path
  cases classes with
  | nil => exact h
  | cons c rest => exact ((h.text _).append hdisplay).text _

theorem renamed_failure (path : ClassPath) {kind kind' : FailureKind Failure}
    (hkind : FailureKind.Renamed f (Failure.Renamed f) kind kind') (x : Term)
    {explanation explanation' : String} (h : Reworded f explanation explanation') :
    Failure.Renamed f (path.failure kind x explanation)
      ((path.rename f).failure kind' (x.rename f) explanation') :=
  .intro rfl hkind rfl (by simp [failure, top?, rename]) (path.reworded_explain h)

theorem renamed_queryFailure (path : ClassPath) {e e' : QueryError}
    (h : QueryError.Renamed f e e') (x : Term) :
    Failure.Renamed f (path.queryFailure e x) ((path.rename f).queryFailure e' (x.rename f)) := by
  refine path.renamed_failure ?_ x h.message
  cases h with
  | unknownIndividual y => exact .unknownIndividual
  | inconsistent hreason => exact .inconsistent hreason

end ClassPath

/-! ## Memories and runs -/

namespace Evidence

/-- The second verdict is the first about renamed terms. -/
abbrev VerdictsAlike (f : BlankNode → BlankNode) : Verdict → Verdict → Prop :=
  EndAlike (Failure.Renamed f) fun ts ts' => ts' = ts.map (Triple.rename f)

/-- The second entry is the first about renamed terms. -/
inductive Entry.Renamed (f : BlankNode → BlankNode) : Entry → Entry → Prop
  | inProgress : Renamed f .inProgress .inProgress
  | finished {verdict verdict' : Verdict} (h : VerdictsAlike f verdict verdict') :
    Renamed f (.finished verdict) (.finished verdict')

/-- The pair of a renamed expression and a renamed individual. -/
def renamePair (f : BlankNode → BlankNode) (pair : Expression × Term) : Expression × Term :=
  (pair.1.rename f, pair.2.rename f)

theorem renamePair_injective (ρ : BlankNode ↪ BlankNode) : Function.Injective (renamePair ρ) :=
  (Expression.rename_injective ρ).prodMap (Term.rename_injective ρ)

/-- The second memory knows of renamed pairs what the first knows of the old ones. -/
def Memo.Renamed (f : BlankNode → BlankNode) (m m' : Memo) : Prop :=
  m.entries.Renamed (renamePair f) (Entry.Renamed f) m'.entries

theorem Memo.Renamed.mark {m m' : Memo} (h : m.Renamed ρ m') (e : Expression) (x : Term) :
    (m.mark e x).Renamed ρ (m'.mark (e.rename ρ) (x.rename ρ)) :=
  Table.Renamed.insert (renamePair_injective ρ) h (e, x) .inProgress

theorem Memo.Renamed.finish {m m' : Memo} (h : m.Renamed ρ m') (e : Expression) (x : Term)
    {verdict verdict' : Verdict} (hverdict : VerdictsAlike ρ verdict verdict') :
    (m.finish e x verdict).Renamed ρ (m'.finish (e.rename ρ) (x.rename ρ) verdict') :=
  Table.Renamed.insert (renamePair_injective ρ) h (e, x) (.finished hverdict)

/-- From every memory and a renamed one, two computations answer alike and leave such memories. -/
def RunAlike (f : BlankNode → BlankNode) {α β : Type} (A : α → β → Prop) (run : Memo → α × Memo)
    (run' : Memo → β × Memo) : Prop :=
  ∀ m m', m.Renamed f m' → A (run m).1 (run' m').1 ∧ (run m).2.Renamed f (run' m').2

/-- Two pieces of work whose verdicts are alike. -/
abbrev WorkAlike (f : BlankNode → BlankNode) : Work → Work → Prop := RunAlike f (VerdictsAlike f)

section Runs

variable {work work' : Work} {works works' : List Work}

theorem workAlike_done {verdict verdict' : Verdict} (h : VerdictsAlike ρ verdict verdict') :
    WorkAlike ρ (done verdict) (done verdict') :=
  fun _ _ hm => ⟨h, hm⟩

theorem workAlike_memoised (h : WorkAlike ρ work work') (e : Expression) (x : Term) :
    WorkAlike ρ (memoised e x work) (memoised (e.rename ρ) (x.rename ρ) work') := by
  intro m m' hm
  have hentry := hm.get? (renamePair_injective ρ) (e, x)
  change Option.Rel _ (m.entries.get? (e, x)) (m'.entries.get? (e.rename ρ, x.rename ρ)) at hentry
  rw [memoised, memoised, Memo.find, Memo.find]
  generalize m.entries.get? (e, x) = entry at hentry ⊢
  generalize m'.entries.get? (e.rename ρ, x.rename ρ) = entry' at hentry ⊢
  cases hentry with
  | none =>
    -- a question that is counted leaves the entries as they are
    have hcounted : Memo.Renamed ρ { m with misses := m.misses + 1 }
        { m' with misses := m'.misses + 1 } := hm
    obtain ⟨hverdict, hrest⟩ := h _ _ (hcounted.mark e x)
    exact ⟨hverdict, hrest.finish e x hverdict⟩
  | some hknown =>
    cases hknown with
    | inProgress => exact ⟨.ok rfl, hm⟩
    | finished hverdict => exact ⟨hverdict, hm⟩

theorem workAlike_every (h : List.Forall₂ (WorkAlike ρ) works works') :
    WorkAlike ρ (every works) (every works') := by
  induction h with
  | nil => exact fun _ _ hm => ⟨.ok rfl, hm⟩
  | @cons work work' works works' hwork _ ih =>
    intro m m' hm
    obtain ⟨hfirst, hrest⟩ := hwork m m' hm
    rw [every, every]
    generalize work m = first at hfirst hrest ⊢
    generalize work' m' = first' at hfirst hrest ⊢
    obtain ⟨verdict, m₁⟩ := first
    obtain ⟨verdict', m₁'⟩ := first'
    cases hfirst with
    | error hfailure => exact ⟨.error hfailure, hrest⟩
    | ok hfound =>
      obtain ⟨hmore, hlast⟩ := ih m₁ m₁' hrest
      dsimp only
      generalize every works m₁ = more at hmore hlast ⊢
      generalize every works' m₁' = more' at hmore hlast ⊢
      obtain ⟨verdict, m₂⟩ := more
      obtain ⟨verdict', m₂'⟩ := more'
      cases hmore with
      | error hfailure => exact ⟨.error hfailure, hlast⟩
      | ok hmore =>
        refine ⟨.ok ?_, hlast⟩
        rw [hfound, hmore, Distinct.union_map (Triple.rename_injective ρ)]

theorem runAlike_each (h : List.Forall₂ (WorkAlike ρ) works works') :
    RunAlike ρ (List.Forall₂ (VerdictsAlike ρ)) (each works) (each works') := by
  induction h with
  | nil => exact fun _ _ hm => ⟨.nil, hm⟩
  | cons hwork _ ih =>
    intro m m' hm
    obtain ⟨hfirst, hrest⟩ := hwork m m' hm
    obtain ⟨hmore, hlast⟩ := ih _ _ hrest
    exact ⟨.cons hfirst hmore, hlast⟩

theorem renamed_failures {verdicts verdicts' : List Verdict}
    (h : List.Forall₂ (VerdictsAlike ρ) verdicts verdicts') :
    List.Forall₂ (Failure.Renamed ρ) (failures verdicts) (failures verdicts') := by
  induction h with
  | nil => exact .nil
  | cons hverdict _ ih =>
    cases hverdict with
    | ok _ => exact ih
    | error hfailure => exact .cons hfailure ih

/-- Gathering triples from results that are related gathers renamed triples, when each step does. -/
theorem foldl_rename {α β : Type} {R : α → β → Prop} {step : List Triple → α → List Triple}
    {step' : List Triple → β → List Triple}
    (hstep : ∀ ts a b, R a b →
      step' (ts.map (Triple.rename ρ)) b = (step ts a).map (Triple.rename ρ))
    {as : List α} {bs : List β} (h : List.Forall₂ R as bs) (ts : List Triple) :
    bs.foldl step' (ts.map (Triple.rename ρ)) = (as.foldl step ts).map (Triple.rename ρ) := by
  induction h generalizing ts with
  | nil => rfl
  | cons hab _ ih => rw [List.foldl_cons, hstep _ _ _ hab, ih, List.foldl_cons]

end Runs

/-! ## Values and restrictions -/

section Restrictions

variable {r r' : Reasoner} {path : ClassPath} {p x : Term}

/-- The values under a property among the edges of an individual, or why these are not known. -/
theorem valuesAlike_of_edges (hr : r.Renamed ρ r') (path : ClassPath) (p x : Term) :
    EndAlike (Failure.Renamed ρ) (fun vs vs' => vs' = vs.map (Term.rename ρ))
      (match r.edges x with
        | .ok edges => .ok ((edges.filter (·.1 = p)).map Prod.snd)
        | .error e => .error (path.queryFailure e x))
      (match r'.edges (x.rename ρ) with
        | .ok edges => .ok ((edges.filter (·.1 = p.rename ρ)).map Prod.snd)
        | .error e => .error ((path.rename ρ).queryFailure e (x.rename ρ))) := by
  have hfilter : ∀ es : List Edge,
      ((es.map (Edge.rename ρ)).filter (·.1 = p.rename ρ)).map Prod.snd =
        ((es.filter (·.1 = p)).map Prod.snd).map (Term.rename ρ) := by
    intro es
    rw [List.filter_map, List.map_map, List.map_map]
    simp only [Function.comp_def, Edge.rename, Term.rename_inj]
  have hedges := hr.edges x
  generalize r.edges x = edges at hedges ⊢
  generalize r'.edges (x.rename ρ) = edges' at hedges ⊢
  cases hedges with
  | ok hedges =>
    subst hedges
    exact .ok (hfilter _)
  | error he => exact .error (path.renamed_queryFailure he x)

theorem valuesAlike (hr : r.Renamed ρ r') (path : ClassPath) (p x : Term) :
    EndAlike (Failure.Renamed ρ) (fun vs vs' => vs' = vs.map (Term.rename ρ)) (values r path p x)
      (values r' (path.rename ρ) (p.rename ρ) (x.rename ρ)) := by
  -- a literal has no values, and nothing is asked about it
  cases x with
  | literal l => exact .ok rfl
  | iri i => exact valuesAlike_of_edges hr path p (.iri i)
  | blank b => exact valuesAlike_of_edges hr path p (.blank b)

theorem workAlike_onValues (hr : r.Renamed ρ r') {work work' : List Term → Work}
    (h : ∀ vs, WorkAlike ρ (work vs) (work' (vs.map (Term.rename ρ)))) :
    WorkAlike ρ (onValues r path p x work)
      (onValues r' (path.rename ρ) (p.rename ρ) (x.rename ρ) work') := by
  intro m m' hm
  have hvalues := valuesAlike hr path p x
  rw [onValues, onValues]
  generalize values r path p x = vs at hvalues ⊢
  generalize values r' (path.rename ρ) (p.rename ρ) (x.rename ρ) = vs' at hvalues ⊢
  cases hvalues with
  | error hfailure => exact ⟨.error hfailure, hm⟩
  | ok hvs =>
    subst hvs
    exact h _ m m' hm

theorem renamed_violation (restriction : Restriction) (expected observed : Nat)
    {cause cause' : Option Failure} (hcause : Option.Rel (Failure.Renamed ρ) cause cause')
    {explanation explanation' : String} (h : Reworded ρ explanation explanation') :
    Failure.Renamed ρ (violation path restriction p expected observed cause x explanation)
      (violation (path.rename ρ) restriction (p.rename ρ) expected observed cause' (x.rename ρ)
        explanation') :=
  path.renamed_failure (.restrictionViolation restriction p expected observed hcause) x h

theorem memberStatements_rename (vs : List Term) {verdicts verdicts' : List Verdict}
    (h : List.Forall₂ (VerdictsAlike ρ) verdicts verdicts') :
    memberStatements (p.rename ρ) (x.rename ρ) ((vs.map (Term.rename ρ)).zip verdicts') =
      (memberStatements p x (vs.zip verdicts)).map (Triple.rename ρ) := by
  have hzip : List.Forall₂ (fun a b => b.1 = a.1.rename ρ ∧ VerdictsAlike ρ a.2 b.2)
      (vs.zip verdicts) ((vs.map (Term.rename ρ)).zip verdicts') := by
    induction h generalizing vs with
    | nil =>
      rw [List.zip_nil_right, List.zip_nil_right]
      exact .nil
    | cons hverdict _ ih =>
      cases vs with
      | nil => exact .nil
      | cons v vs => exact .cons ⟨rfl, hverdict⟩ (ih vs)
  refine foldl_rename ?_ hzip []
  rintro ts ⟨v, verdict⟩ ⟨v', verdict'⟩ ⟨rfl, hverdict⟩
  cases hverdict with
  | error _ => rfl
  | ok hfound =>
    subst hfound
    have hinsert := Distinct.insertLast_map (Triple.rename_injective ρ) ts ⟨x, p, v⟩
    have hunion := Distinct.union_map (Triple.rename_injective ρ) (Distinct.insertLast ts ⟨x, p, v⟩)
    rw [← hinsert] at hunion
    exact hunion _

variable {work work' : Term → Work} (h : ∀ v, WorkAlike ρ (work v) (work' (v.rename ρ)))

include h

theorem runAlike_firstMember (vs : List Term) {cause cause' : Option Failure}
    (hcause : Option.Rel (Failure.Renamed ρ) cause cause') :
    RunAlike ρ
      (EndAlike (Option.Rel (Failure.Renamed ρ)) fun found found' =>
        found'.1 = found.1.rename ρ ∧ found'.2 = found.2.map (Triple.rename ρ))
      (firstMember work vs cause) (firstMember work' (vs.map (Term.rename ρ)) cause') := by
  induction vs generalizing cause cause' with
  | nil => exact fun _ _ hm => ⟨.error hcause, hm⟩
  | cons v vs ih =>
    intro m m' hm
    obtain ⟨hfirst, hrest⟩ := h v m m' hm
    rw [List.map_cons, firstMember, firstMember]
    generalize work v m = first at hfirst hrest ⊢
    generalize work' (v.rename ρ) m' = first' at hfirst hrest ⊢
    obtain ⟨verdict, m₁⟩ := first
    obtain ⟨verdict', m₁'⟩ := first'
    cases hfirst with
    | ok hfound => exact ⟨.ok ⟨rfl, hfound⟩, hrest⟩
    | error hfailure =>
      -- the cause of a refusal is the failure of the last value
      exact ih (.some hfailure) m₁ m₁' hrest

theorem workAlike_checkSome (filler : Expression) (vs : List Term) :
    WorkAlike ρ (checkSome path work p filler x vs)
      (checkSome (path.rename ρ) work' (p.rename ρ) (filler.rename ρ) (x.rename ρ)
        (vs.map (Term.rename ρ))) := by
  intro m m' hm
  obtain ⟨hmember, hrest⟩ := runAlike_firstMember h vs .none m m' hm
  rw [checkSome, checkSome]
  generalize firstMember work vs none m = member at hmember hrest ⊢
  generalize firstMember work' (vs.map (Term.rename ρ)) none m' = member' at hmember hrest ⊢
  obtain ⟨result, m₁⟩ := member
  obtain ⟨result', m₁'⟩ := member'
  cases hmember with
  | @ok found found' hfound =>
    obtain ⟨v, ts⟩ := found
    obtain ⟨v', ts'⟩ := found'
    obtain ⟨rfl, rfl⟩ := hfound
    exact ⟨.ok (Distinct.union_map (Triple.rename_injective ρ) [⟨x, p, v⟩] ts), hrest⟩
  | error hcause =>
    refine ⟨.error (renamed_violation _ _ _ hcause ?_), hrest⟩
    rw [List.isEmpty_map, List.length_map]
    split
    · exact ((Reworded.shortName x).text _).name p
    · exact (((((Reworded.same _).name p).text _).name x).text _).append (filler.reworded_display ρ)

theorem workAlike_checkOnly (filler : Expression) (vs : List Term) :
    WorkAlike ρ (checkOnly path work p filler x vs)
      (checkOnly (path.rename ρ) work' (p.rename ρ) (filler.rename ρ) (x.rename ρ)
        (vs.map (Term.rename ρ))) := by
  intro m m' hm
  have hworks : List.Forall₂ (WorkAlike ρ) (vs.map work) ((vs.map (Term.rename ρ)).map work') := by
    rw [List.map_map, List.forall₂_map_left_iff, List.forall₂_map_right_iff]
    exact List.forall₂_same.mpr fun v _ => h v
  obtain ⟨hverdicts, hrest⟩ := runAlike_each hworks m m' hm
  rw [checkOnly, checkOnly]
  generalize each (vs.map work) m = found at hverdicts hrest ⊢
  generalize each ((vs.map (Term.rename ρ)).map work') m' = found' at hverdicts hrest ⊢
  obtain ⟨verdicts, m₁⟩ := found
  obtain ⟨verdicts', m₁'⟩ := found'
  have hfailures := renamed_failures hverdicts
  dsimp only at hverdicts hrest hfailures ⊢
  generalize failures verdicts = causes at hfailures ⊢
  generalize failures verdicts' = causes' at hfailures ⊢
  cases hfailures with
  | nil => exact ⟨.ok (memberStatements_rename vs hverdicts), hrest⟩
  | cons hcause hcauses =>
    dsimp only
    rw [List.length_map, ← hcauses.length_eq]
    refine ⟨.error (renamed_violation _ _ _ (.some hcause) ?_), hrest⟩
    exact (((((Reworded.same _).name p).text _).name x).text _).append (filler.reworded_display ρ)

omit h

theorem verdictsAlike_checkCount (restriction : Restriction) (bound : Nat) (vs : List Term) :
    VerdictsAlike ρ (checkCount path restriction p bound x vs)
      (checkCount (path.rename ρ) restriction (p.rename ρ) bound (x.rename ρ)
        (vs.map (Term.rename ρ))) := by
  rw [checkCount, checkCount, List.length_map]
  split
  · exact .error (renamed_violation _ _ _ .none
      ((((((Reworded.shortName x).text _).text _).text _).name p).text _ |>.text _))
  · split
    · exact .error (renamed_violation _ _ _ .none
        (((((Reworded.shortName x).text _).name p).text _).text _))
    · refine .ok ?_
      rw [← Distinct.dedup_map (Triple.rename_injective ρ), List.map_map, List.map_map]
      rfl

theorem verdictsAlike_checkSelf (vs : List Term) :
    VerdictsAlike ρ (checkSelf path p x vs)
      (checkSelf (path.rename ρ) (p.rename ρ) (x.rename ρ) (vs.map (Term.rename ρ))) := by
  simp only [checkSelf, List.mem_map_of_injective (Term.rename_injective ρ)]
  split
  · exact .ok rfl
  · exact .error (renamed_violation _ _ _ .none (((Reworded.shortName x).text _).name p))

end Restrictions

/-! ## Classes, unions and complements -/

section Classes

variable {r r' : Reasoner} {path : ClassPath} {x : Term}

theorem renamed_notMember (c x : Term) {explanation explanation' : String}
    (h : Reworded ρ explanation explanation') :
    Failure.Renamed ρ (notMember path c x explanation)
      (notMember (path.rename ρ) (c.rename ρ) (x.rename ρ) explanation') := by
  cases path.renamed_failure .notAMember x h with
  | intro hstage hkind hindividual _ hexplanation =>
    exact .intro hstage hkind hindividual rfl hexplanation

theorem verdictsAlike_checkDatatype (c : Term) (l : Literal) :
    VerdictsAlike ρ (checkDatatype path c l) (checkDatatype (path.rename ρ) (c.rename ρ) l) := by
  simp only [checkDatatype, Term.rename_eq_iri]
  split
  · exact .ok rfl
  · exact .error (renamed_notMember c (.literal l) ((Reworded.same _).name c))

theorem typeExpression_rename (t : Term) :
    typeExpression (t.rename ρ) = (typeExpression t).rename ρ := by
  cases t with
  | iri i => exact (Expression.rename_named ρ i).symm
  | literal l => rfl
  | blank b => rfl

theorem workAlike_checkClass (hr : r.Renamed ρ r')
    {unfold unfold' : ClassPath → Expression → Term → Work}
    (hunfold : ∀ path e x,
      WorkAlike ρ (unfold path e x) (unfold' (path.rename ρ) (e.rename ρ) (x.rename ρ)))
    (c : Term) :
    WorkAlike ρ (checkClass r unfold path c x)
      (checkClass r' unfold' (path.rename ρ) (c.rename ρ) (x.rename ρ)) := by
  intro m m' hm
  have htypes := hr.types x
  have hmember : ∀ types : List Term,
      ((types.map (Term.rename ρ)).any fun t =>
          t = c.rename ρ || r'.subsumes (typeExpression t) (.concept (c.rename ρ))) =
        types.any fun t => t = c || r.subsumes (typeExpression t) (.concept c) := by
    intro types
    have hconcept : Expression.concept (c.rename ρ) = (Expression.concept c).rename ρ := rfl
    rw [List.any_map]
    simp only [Function.comp_def, Term.rename_inj, typeExpression_rename, hconcept, hr.subsumes]
  have hdefinitions : ∀ ds : List Expression, List.Forall₂ (WorkAlike ρ)
      (ds.map fun d => unfold (path.push c) d x)
      ((ds.map (Expression.rename ρ)).map fun d =>
        unfold' ((path.rename ρ).push (c.rename ρ)) d (x.rename ρ)) := by
    intro ds
    rw [List.map_map, List.forall₂_map_left_iff, List.forall₂_map_right_iff,
      ← ClassPath.push_rename]
    exact List.forall₂_same.mpr fun d _ => hunfold _ d x
  cases x
  case literal l => exact ⟨verdictsAlike_checkDatatype c l, hm⟩
  -- what is no literal is a member by its asserted types
  all_goals
    simp only [Term.rename_iri, Term.rename_blank] at htypes ⊢
    simp only [checkClass]
    generalize r.types _ = types at htypes ⊢
    generalize r'.types _ = types' at htypes ⊢
    cases htypes with
    | error he => exact ⟨.error (path.renamed_queryFailure he _), hm⟩
    | ok htypes =>
      subst htypes
      dsimp only
      rw [hmember, hr.equivalentClasses, List.isEmpty_map, hr.superClasses, ← List.map_append]
      split
      · exact ⟨.error (renamed_notMember c _ (((Reworded.shortName _).text _).name c)), hm⟩
      · refine workAlike_every (.cons (workAlike_done (.ok ?_)) (hdefinitions _)) m m' hm
        split <;> rfl

theorem workAlike_checkUnion {branches branches' : List Work}
    (h : List.Forall₂ (WorkAlike ρ) branches branches') :
    WorkAlike ρ (checkUnion path branches x)
      (checkUnion (path.rename ρ) branches' (x.rename ρ)) := by
  intro m m' hm
  obtain ⟨hverdicts, hrest⟩ := runAlike_each h m m' hm
  rw [checkUnion, checkUnion]
  generalize each branches m = found at hverdicts hrest ⊢
  generalize each branches' m' = found' at hverdicts hrest ⊢
  obtain ⟨verdicts, m₁⟩ := found
  obtain ⟨verdicts', m₁'⟩ := found'
  have hfailures := renamed_failures hverdicts
  dsimp only at hverdicts hrest hfailures ⊢
  rw [← hfailures.length_eq, ← h.length_eq]
  split
  · refine ⟨.ok (foldl_rename ?_ hverdicts []), hrest⟩
    rintro ts verdict verdict' (hfound | hfailure)
    · subst hfound
      exact Distinct.union_map (Triple.rename_injective ρ) ts _
    · rfl
  · refine ⟨.error (path.renamed_failure (.unionExhausted hfailures) x ?_), hrest⟩
    refine ((((Reworded.shortName x).text _).text _).text _).append (.intercalate _ ?_)
    rw [List.forall₂_map_left_iff, List.forall₂_map_right_iff]
    exact hfailures.imp fun _ _ hfailure => hfailure.explanation

theorem workAlike_checkComplement {work work' : Work} (h : WorkAlike ρ work work')
    (part : Expression) :
    WorkAlike ρ (checkComplement path work part x)
      (checkComplement (path.rename ρ) work' (part.rename ρ) (x.rename ρ)) := by
  intro m m' hm
  obtain ⟨hverdict, hrest⟩ := h m m' hm
  rw [checkComplement, checkComplement]
  generalize work m = done at hverdict hrest ⊢
  generalize work' m' = done' at hverdict hrest ⊢
  obtain ⟨verdict, m₁⟩ := done
  obtain ⟨verdict', m₁'⟩ := done'
  cases hverdict with
  | ok _ =>
    exact ⟨.error (path.renamed_failure .complementViolation x
      ((((Reworded.shortName x).text _).append (part.reworded_display ρ)).text _)), hrest⟩
  | error _ => exact ⟨.ok rfl, hrest⟩

end Classes

/-! ## Expressions -/

section Expressions

variable {r r' : Reasoner} {unfold unfold' : ClassPath → Expression → Term → Work}

mutual

theorem workAlike_evaluate (hr : r.Renamed ρ r')
    (hunfold : ∀ path e x,
      WorkAlike ρ (unfold path e x) (unfold' (path.rename ρ) (e.rename ρ) (x.rename ρ)))
    (path : ClassPath) (e : Expression) (x : Term) :
    WorkAlike ρ (evaluate r unfold path e x)
      (evaluate r' unfold' (path.rename ρ) (e.rename ρ) (x.rename ρ)) := by
  rw [evaluate, evaluate]
  -- one rule for each form; what is unfolded inside is alike by assumption
  refine workAlike_memoised ?_ e x
  cases e with
  | top => exact workAlike_done (.ok rfl)
  | bottom =>
    exact workAlike_done
      (.error (path.renamed_failure .unsatisfiable x ((Reworded.shortName x).text _)))
  | concept c => exact workAlike_checkClass hr hunfold c
  | conj parts => exact workAlike_every (workAlike_evaluateEach hr hunfold path parts x)
  | disj branches => exact workAlike_checkUnion (workAlike_evaluateEach hr hunfold path branches x)
  | compl part => exact workAlike_checkComplement (workAlike_evaluate hr hunfold path part x) part
  | someOf p filler =>
    exact workAlike_onValues hr fun vs =>
      workAlike_checkSome (fun v => workAlike_evaluate hr hunfold path filler v) filler vs
  | onlyOf p filler =>
    exact workAlike_onValues hr fun vs =>
      workAlike_checkOnly (fun v => workAlike_evaluate hr hunfold path filler v) filler vs
  | atLeast p n =>
    exact workAlike_onValues hr fun vs => workAlike_done (verdictsAlike_checkCount _ n vs)
  | atMost p n =>
    exact workAlike_onValues hr fun vs => workAlike_done (verdictsAlike_checkCount _ n vs)
  | exactly p n =>
    exact workAlike_onValues hr fun vs => workAlike_done (verdictsAlike_checkCount _ n vs)
  | selfOf p => exact workAlike_onValues hr fun vs => workAlike_done (verdictsAlike_checkSelf vs)
  | valueOf p v => exact workAlike_done (.ok rfl)
  | nominal a => exact workAlike_done (.ok rfl)

theorem workAlike_evaluateEach (hr : r.Renamed ρ r')
    (hunfold : ∀ path e x,
      WorkAlike ρ (unfold path e x) (unfold' (path.rename ρ) (e.rename ρ) (x.rename ρ)))
    (path : ClassPath) (parts : List Expression) (x : Term) :
    List.Forall₂ (WorkAlike ρ) ((evaluateEach r unfold path parts).map (· x))
      ((evaluateEach r' unfold' (path.rename ρ) (Expression.renameParts ρ parts)).map
        (· (x.rename ρ))) := by
  cases parts with
  | nil => exact .nil
  | cons part rest =>
    exact .cons (workAlike_evaluate hr hunfold path part x)
      (workAlike_evaluateEach hr hunfold path rest x)

end

theorem workAlike_translateWithin (hr : r.Renamed ρ r') (depth : Nat) (path : ClassPath)
    (e : Expression) (x : Term) :
    WorkAlike ρ (translateWithin r depth path e x)
      (translateWithin r' depth (path.rename ρ) (e.rename ρ) (x.rename ρ)) := by
  induction depth generalizing path e x with
  | zero => exact workAlike_evaluate hr (fun _ _ _ => workAlike_done (.ok rfl)) path e x
  | succ depth ih => exact workAlike_evaluate hr ih path e x

theorem workAlike_translate (hr : r.Renamed ρ r') (path : ClassPath) (e : Expression) (x : Term) :
    WorkAlike ρ (translate r path e x)
      (translate r' (path.rename ρ) (e.rename ρ) (x.rename ρ)) := by
  -- the depth is a bound on what can be defined, the same for both reasoners
  rw [translate, translate, hr.definedPairs]
  exact workAlike_translateWithin hr _ path e x

end Expressions

end Evidence

/-! ## Translators -/

namespace Translator

open Evidence

/-- The second translator remembers of renamed pairs what the first remembers of the old ones. -/
structure Renamed (f : BlankNode → BlankNode) (t t' : Translator) : Prop where
  memo : t.memo.Renamed f t'.memo
  path : t'.path = t.path.rename f

theorem renamed_new (f : BlankNode → BlankNode) : new.Renamed f new := ⟨.nil, rfl⟩

theorem Renamed.translate {t t' : Translator} (ht : t.Renamed ρ t') {r r' : Reasoner}
    (hr : r.Renamed ρ r') (e : Expression) (x : Term) :
    VerdictsAlike ρ (t.translate r e x).1 (t'.translate r' (e.rename ρ) (x.rename ρ)).1 ∧
      (t.translate r e x).2.Renamed ρ (t'.translate r' (e.rename ρ) (x.rename ρ)).2 := by
  obtain ⟨hverdict, hmemo⟩ := workAlike_translate hr t.path e x _ _ ht.memo
  rw [← ht.path] at hverdict hmemo
  exact ⟨hverdict, hmemo, ht.path⟩

end Translator

end GraphConformance
