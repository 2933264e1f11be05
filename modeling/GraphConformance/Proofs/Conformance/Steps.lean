import GraphConformance.Conformance.Pass
import GraphConformance.Proofs.Evidence.History
import GraphConformance.Proofs.Mapping.Assignment
import GraphConformance.Proofs.Mapping.Pairs

/-!
# The steps of a pass

For each step of a pass: what holds when it succeeds. What is collected is never lost by a later
step that succeeds, and between steps the translator is only run further (`Pass.Runs`). The
steps over lists of pairs are inductions over those for one pair.
-/

set_option autoImplicit false

namespace GraphConformance.Conformance

open Evidence

namespace Pass

/-- What a pass asks its translator: whether an individual has the types of a template
individual. -/
def Asks (pass : Pass) (call : Expression × Term) : Prop :=
  ∃ template, pass.knowledge.typeProfile template = .ok call.1

/-- The translator has been run further, on what the pass asks. -/
def Runs (pass : Pass) (p q : Progress) : Prop :=
  ∃ calls, (∀ call ∈ calls, pass.Asks call) ∧
    q.translator = p.translator.run pass.knowledge.reasoner calls

/-- The progress is one that a pass can have: its translator was new and has been run. -/
def Reaches (pass : Pass) (p : Progress) : Prop :=
  pass.Runs .start p

variable {pass : Pass} {individual template : Term} {p q s : Progress}

namespace Runs

theorem of_eq (h : q.translator = p.translator) : pass.Runs p q :=
  ⟨[], by simp, h⟩

theorem trans (h : pass.Runs p q) (h' : pass.Runs q s) : pass.Runs p s := by
  obtain ⟨calls, hasks, hq⟩ := h
  obtain ⟨more, hasks', hs⟩ := h'
  refine ⟨calls ++ more, ?_, ?_⟩
  · intro call hcall
    rcases List.mem_append.mp hcall with hcall | hcall
    · exact hasks call hcall
    · exact hasks' call hcall
  · rw [hs, hq, Translator.run_append]

theorem rollBack (h : pass.Runs p q) (earlier : Progress) : pass.Runs p (q.rollBack earlier) := h

end Runs

/-! ## Pairs -/

/-- The translator of a pass, asked at some time, finds that an individual has the types of a
template individual. -/
def Translated (pass : Pass) (individual template : Term) (statements : List Triple) : Prop :=
  ∃ calls profile, (∀ call ∈ calls, pass.Asks call) ∧
    pass.knowledge.typeProfile template = .ok profile ∧
    ((Translator.after pass.knowledge.reasoner calls).translate pass.knowledge.reasoner profile
      individual).1 = .ok statements

/-- Statements for a pair of objects: those of its translation, or copied types when nothing is said
of the object. -/
def TranslatedOrCopied (pass : Pass) (individual template : Term) (statements : List Triple) :
    Prop :=
  (∃ profile, pass.knowledge.typeProfile individual = .ok profile ∧ profile ≠ .top ∧
      pass.Translated individual template statements) ∨
    (pass.knowledge.typeProfile individual = .ok .top ∧
      statements = pass.copiedTypes individual template)

/-- Of an acyclic pair a new translator finds the same: the time of asking does not matter. -/
theorem Translated.toOption_translate_new {statements : List Triple} {profile : Expression}
    (h : pass.Translated individual template statements)
    (hprofile : pass.knowledge.typeProfile template = .ok profile)
    (hacyclic : pass.knowledge.Acyclic (profile, individual)) :
    (Translator.new.translate pass.knowledge.reasoner profile individual).1.toOption =
      some statements := by
  obtain ⟨calls, found, -, hfound, hok⟩ := h
  obtain rfl : found = profile := Except.ok.inj (hfound.symm.trans hprofile)
  rw [toOption_translate_of_shared calls found individual fun _ _ hmet => hacyclic.of_knows hmet,
    hok]
  rfl

theorem addDefaults_translator : (pass.addDefaults individual template p).translator =
    p.translator := by
  unfold addDefaults
  split <;> rfl

theorem addDefaults_translated : (pass.addDefaults individual template p).translated =
    p.translated := by
  unfold addDefaults
  split <;> rfl

theorem runs_addDefaults (pass : Pass) (individual template : Term) (p : Progress) :
    pass.Runs p (pass.addDefaults individual template p) :=
  .of_eq addDefaults_translator

theorem runs_translate {result : Verdict} (h : pass.translate individual template p = (result, q)) :
    pass.Runs p q ∧ q.translated = p.translated := by
  unfold translate at h
  split at h
  · obtain ⟨-, rfl⟩ := Prod.mk.inj h
    exact ⟨.of_eq rfl, rfl⟩
  · rename_i target htarget
    obtain ⟨-, rfl⟩ := Prod.mk.inj h
    refine ⟨⟨[(target, individual)], ?_, rfl⟩, rfl⟩
    intro call hcall
    obtain rfl := List.mem_singleton.mp hcall
    exact ⟨template, htarget⟩

theorem translate_ok {statements : List Triple} (hp : pass.Reaches p)
    (h : pass.translate individual template p = (.ok statements, q)) :
    pass.Translated individual template statements := by
  obtain ⟨calls, hasks, hcalls⟩ := hp
  unfold translate at h
  split at h
  · exact absurd (Prod.mk.inj h).1 (by simp)
  · rename_i target htarget
    refine ⟨calls, target, hasks, htarget, ?_⟩
    rw [hcalls] at h
    exact (Prod.mk.inj h).1

/-! ## Subjects -/

theorem runs_passSubject {required : Bool} {result : Except Failure Unit}
    (h : pass.passSubject required individual template p = (result, q)) :
    pass.Runs p q := by
  have hfilled := pass.runs_addDefaults individual template p
  unfold passSubject at h
  dsimp only at h
  split at h
  · split at h
    · rename_i q' hq'
      obtain ⟨-, rfl⟩ := Prod.mk.inj h
      exact hfilled.trans (runs_translate hq').1
    · rename_i q' hq'
      -- a failure is answered, or what the pair contributed is taken back
      split at h
      · obtain ⟨-, rfl⟩ := Prod.mk.inj h
        exact hfilled.trans (runs_translate hq').1
      · obtain ⟨-, rfl⟩ := Prod.mk.inj h
        exact (hfilled.trans (runs_translate hq').1).rollBack p
  · obtain ⟨-, rfl⟩ := Prod.mk.inj h
    exact hfilled

theorem passSubject_ok {required : Bool} (hp : pass.Reaches p)
    (h : pass.passSubject required individual template p = (.ok (), q)) :
    p.translated ⊆ q.translated ∧
      (pass.options.translate = true → required = true →
        ∃ statements, pass.Translated individual template statements ∧
          statements ⊆ q.translated) := by
  unfold passSubject at h
  dsimp only at h
  split at h
  · split at h
    · rename_i statements q' hq'
      obtain ⟨-, rfl⟩ := Prod.mk.inj h
      obtain ⟨-, htranslated⟩ := runs_translate hq'
      rw [addDefaults_translated] at htranslated
      constructor
      · intro t ht
        rw [← htranslated] at ht
        exact Distinct.mem_union.mpr (Or.inl ht)
      · intro _ _
        refine ⟨statements, translate_ok (hp.trans (pass.runs_addDefaults _ _ p)) hq', ?_⟩
        intro t ht
        exact Distinct.mem_union.mpr (Or.inr ht)
    · split at h
      · exact absurd (Prod.mk.inj h).1 (by simp)
      · rename_i hnot
        obtain ⟨-, rfl⟩ := Prod.mk.inj h
        exact ⟨List.Subset.refl _, fun _ hr => absurd hr hnot⟩
  · rename_i hoff
    obtain ⟨-, rfl⟩ := Prod.mk.inj h
    rw [addDefaults_translated]
    exact ⟨List.Subset.refl _, fun hon => absurd hon hoff⟩

theorem runs_passSubjects {mapping : Mapping} {pairs : List (Term × Term)}
    {result : Except Failure Unit} (h : pass.passSubjects mapping pairs p = (result, q)) :
    pass.Runs p q := by
  induction pairs generalizing p with
  | nil =>
    obtain ⟨-, rfl⟩ := Prod.mk.inj h
    exact .of_eq rfl
  | cons pair rest ih =>
    obtain ⟨individual, template⟩ := pair
    rw [passSubjects] at h
    split at h
    · rename_i failure q' hq'
      obtain ⟨-, rfl⟩ := Prod.mk.inj h
      exact runs_passSubject hq'
    · rename_i q' hq'
      exact (runs_passSubject hq').trans (ih h)

theorem passSubjects_ok {mapping : Mapping} {pairs : List (Term × Term)} (hp : pass.Reaches p)
    (h : pass.passSubjects mapping pairs p = (.ok (), q)) :
    p.translated ⊆ q.translated ∧
      (pass.options.translate = true → ∀ i t, (i, t) ∈ pairs → mapping.isRequired i = true →
        ∃ statements, pass.Translated i t statements ∧ statements ⊆ q.translated) := by
  induction pairs generalizing p with
  | nil =>
    obtain ⟨-, rfl⟩ := Prod.mk.inj h
    exact ⟨List.Subset.refl _, fun _ i t hm => absurd hm (by simp)⟩
  | cons pair rest ih =>
    obtain ⟨individual, template⟩ := pair
    rw [passSubjects] at h
    split at h
    · exact absurd (Prod.mk.inj h).1 (by simp)
    · rename_i q' hq'
      obtain ⟨hsub, hfirst⟩ := passSubject_ok hp hq'
      obtain ⟨hsub', hrest⟩ := ih (hp.trans (runs_passSubject hq')) h
      refine ⟨List.Subset.trans hsub hsub', ?_⟩
      intro hon i t hm hr
      rcases List.mem_cons.mp hm with heq | hm
      · obtain ⟨rfl, rfl⟩ := Prod.mk.inj heq
        obtain ⟨statements, hs, hin⟩ := hfirst hon hr
        exact ⟨statements, hs, List.Subset.trans hin hsub'⟩
      · exact hrest hon i t hm hr

theorem runs_matchSubjects {graph templateGraph : Term} {result : Except Failure Mapping}
    (h : pass.matchSubjects graph templateGraph p = (result, q)) :
    pass.Runs p q := by
  unfold matchSubjects at h
  dsimp only at h
  split at h
  · obtain ⟨-, rfl⟩ := Prod.mk.inj h
    exact .of_eq rfl
  · split at h
    · rename_i q' hq'
      obtain ⟨-, rfl⟩ := Prod.mk.inj h
      exact runs_passSubjects hq'
    · rename_i q' hq'
      obtain ⟨-, rfl⟩ := Prod.mk.inj h
      exact runs_passSubjects hq'

theorem matchSubjects_ok {graph templateGraph : Term} {mapping : Mapping}
    (h : pass.matchSubjects graph templateGraph p = (.ok mapping, q)) :
    Mapping.find? (pass.knowledge.accepts pass.options.subjectKind) (pass.candidate.subjects graph)
        (pass.template.subjects templateGraph) = some mapping ∧
      pass.passSubjects mapping mapping.pairs p = (.ok (), q) := by
  unfold matchSubjects at h
  dsimp only at h
  split at h
  · exact absurd (Prod.mk.inj h).1 (by simp)
  · rename_i mapping' hfind
    split at h
    · exact absurd (Prod.mk.inj h).1 (by simp)
    · rename_i q' hq'
      obtain ⟨hm, rfl⟩ := Prod.mk.inj h
      obtain rfl := Except.ok.inj hm
      exact ⟨hfind, hq'⟩

/-! ## Objects -/

theorem runs_objectStatements {result : Except Failure (List Triple)}
    (h : pass.objectStatements individual template p = (result, q)) :
    pass.Runs p q ∧ q.translated = p.translated := by
  unfold objectStatements at h
  split at h
  · obtain ⟨-, rfl⟩ := Prod.mk.inj h
    exact ⟨.of_eq rfl, rfl⟩
  · split at h
    · obtain ⟨-, rfl⟩ := Prod.mk.inj h
      exact ⟨.of_eq rfl, rfl⟩
    · exact runs_translate h

theorem objectStatements_ok {statements : List Triple} (hp : pass.Reaches p)
    (h : pass.objectStatements individual template p = (.ok statements, q)) :
    pass.TranslatedOrCopied individual template statements := by
  unfold objectStatements at h
  split at h
  · exact absurd (Prod.mk.inj h).1 (by simp)
  · rename_i profile hprofile
    split at h
    · rename_i htop
      subst htop
      exact Or.inr ⟨hprofile, (Except.ok.inj (Prod.mk.inj h).1).symm⟩
    · rename_i htop
      exact Or.inl ⟨profile, hprofile, htop, translate_ok hp h⟩

theorem runs_passObjects {pairs : List (Term × Term)} {statements : List Triple}
    {result : Except Failure (List Triple)}
    (h : pass.passObjects pairs statements p = (result, q)) :
    pass.Runs p q ∧ q.translated = p.translated := by
  induction pairs generalizing p statements with
  | nil =>
    obtain ⟨-, rfl⟩ := Prod.mk.inj h
    exact ⟨.of_eq rfl, rfl⟩
  | cons pair rest ih =>
    obtain ⟨individual, template⟩ := pair
    have hfilled := pass.runs_addDefaults individual template p
    rw [passObjects] at h
    split at h
    · split at h
      · rename_i q' hq'
        obtain ⟨-, rfl⟩ := Prod.mk.inj h
        obtain ⟨hruns, htranslated⟩ := runs_objectStatements hq'
        exact ⟨hfilled.trans hruns, htranslated.trans addDefaults_translated⟩
      · rename_i found q' hq'
        obtain ⟨hruns, htranslated⟩ := runs_objectStatements hq'
        obtain ⟨hruns', htranslated'⟩ := ih h
        exact ⟨(hfilled.trans hruns).trans hruns',
          htranslated'.trans (htranslated.trans addDefaults_translated)⟩
    · obtain ⟨hruns, htranslated⟩ := ih h
      exact ⟨hfilled.trans hruns, htranslated.trans addDefaults_translated⟩

theorem passObjects_ok {pairs : List (Term × Term)} {statements all : List Triple}
    (hp : pass.Reaches p) (h : pass.passObjects pairs statements p = (.ok all, q)) :
    statements ⊆ all ∧
      (pass.options.translate = true → ∀ i t, (i, t) ∈ pairs →
        ∃ found, pass.TranslatedOrCopied i t found ∧ found ⊆ all) := by
  induction pairs generalizing p statements with
  | nil =>
    obtain rfl := Except.ok.inj (Prod.mk.inj h).1
    exact ⟨List.Subset.refl _, fun _ i t hm => absurd hm (by simp)⟩
  | cons pair rest ih =>
    obtain ⟨individual, template⟩ := pair
    have hfilled := hp.trans (pass.runs_addDefaults individual template p)
    rw [passObjects] at h
    split at h
    · split at h
      · exact absurd (Prod.mk.inj h).1 (by simp)
      · rename_i found q' hq'
        obtain ⟨hsub, hrest⟩ := ih (hfilled.trans (runs_objectStatements hq').1) h
        refine ⟨fun t ht => hsub (Distinct.mem_union.mpr (Or.inl ht)), ?_⟩
        intro hon i t hm
        rcases List.mem_cons.mp hm with heq | hm
        · obtain ⟨rfl, rfl⟩ := Prod.mk.inj heq
          exact ⟨found, objectStatements_ok hfilled hq',
            fun t ht => hsub (Distinct.mem_union.mpr (Or.inr ht))⟩
        · exact hrest hon i t hm
    · rename_i hoff
      obtain ⟨hsub, -⟩ := ih hfilled h
      exact ⟨hsub, fun hon => absurd hon hoff⟩

/-- The objects of a subject conform to those of a template subject: they are mapped, and what is
found about each pair is among the translated statements. -/
structure ObjectsConform (pass : Pass) (subject template : Term) (m : Mapping)
    (translated : List Triple) : Prop where
  isMapping : m.IsMapping (pass.knowledge.accepts pass.options.objectKind)
    (pass.candidate.objects subject) (pass.template.objects template)
  statements : pass.options.translate = true → ∀ i t, m.template? i = some t →
    ∃ found, pass.TranslatedOrCopied i t found ∧ found ⊆ translated

theorem runs_matchObjectsOf {subject : Term} {result : Except Failure (Mapping × List Triple)}
    (h : pass.matchObjectsOf subject template p = (result, q)) :
    pass.Runs p q ∧ q.translated = p.translated := by
  unfold matchObjectsOf at h
  dsimp only at h
  split at h
  · obtain ⟨-, rfl⟩ := Prod.mk.inj h
    exact ⟨.of_eq rfl, rfl⟩
  · split at h
    · rename_i q' hq'
      obtain ⟨-, rfl⟩ := Prod.mk.inj h
      exact runs_passObjects hq'
    · rename_i q' hq'
      obtain ⟨-, rfl⟩ := Prod.mk.inj h
      exact runs_passObjects hq'

theorem matchObjectsOf_ok {subject : Term} {m : Mapping} {statements : List Triple}
    (hp : pass.Reaches p)
    (h : pass.matchObjectsOf subject template p = (.ok (m, statements), q)) :
    pass.ObjectsConform subject template m statements := by
  unfold matchObjectsOf at h
  dsimp only at h
  split at h
  · exact absurd (Prod.mk.inj h).1 (by simp)
  · rename_i mapping hfind
    split at h
    · exact absurd (Prod.mk.inj h).1 (by simp)
    · rename_i found q' hq'
      obtain ⟨rfl, rfl⟩ := Prod.mk.inj (Except.ok.inj (Prod.mk.inj h).1)
      refine ⟨Mapping.isMapping_of_find? hfind, ?_⟩
      intro hon i t hm
      exact (passObjects_ok hp hq').2 hon i t (Mapping.mem_pairs_iff.mpr hm)

theorem ObjectsConform.mono {subject : Term} {m : Mapping} {ts us : List Triple}
    (h : pass.ObjectsConform subject template m ts) (hsub : ts ⊆ us) :
    pass.ObjectsConform subject template m us := by
  refine ⟨h.isMapping, ?_⟩
  intro hon i t hm
  obtain ⟨found, hfound, hin⟩ := h.statements hon i t hm
  exact ⟨found, hfound, List.Subset.trans hin hsub⟩

/-- What mapping the objects of pairs of subjects adds to the subjects that are mapped already. -/
structure ObjectsMapped (pass : Pass) (pairs : List (Term × Term)) (mapped : Table Term Mapping)
    (failure : Option Failure) (p : Progress) (objects : Table Term Mapping)
    (failure' : Option Failure) (q : Progress) : Prop where
  kept : p.translated ⊆ q.translated
  known : ∀ s, mapped.get? s ≠ none → objects.get? s ≠ none
  conform : ∀ s m, objects.get? s = some m → mapped.get? s = some m ∨
    ∃ t, (s, t) ∈ pairs ∧ pass.ObjectsConform s t m q.translated
  nonempty : objects.entries = [] → failure' = none → pairs = [] ∧ failure = none

theorem matchObjects_spec {pairs : List (Term × Term)} {mapped objects : Table Term Mapping}
    {failure failure' : Option Failure} (hp : pass.Reaches p)
    (h : pass.matchObjects pairs mapped failure p = ((objects, failure'), q)) :
    pass.ObjectsMapped pairs mapped failure p objects failure' q := by
  induction pairs generalizing mapped failure p with
  | nil =>
    obtain ⟨hfst, rfl⟩ := Prod.mk.inj h
    obtain ⟨rfl, rfl⟩ := Prod.mk.inj hfst
    exact ⟨List.Subset.refl _, fun _ => id, fun _ _ => Or.inl, fun _ hnone => ⟨rfl, hnone⟩⟩
  | cons pair rest ih =>
    obtain ⟨subject, template⟩ := pair
    rw [matchObjects] at h
    split at h
    · rename_i mapping statements q' hq'
      obtain ⟨hruns, htranslated⟩ := runs_matchObjectsOf hq'
      have hreached : pass.Reaches
          { q' with translated := Distinct.union q'.translated statements } := hp.trans hruns
      have hrest := ih hreached h
      have hstatements : statements ⊆ q.translated := fun t ht =>
        hrest.kept (Distinct.mem_union.mpr (Or.inr ht))
      have hsubject : (mapped.insert subject mapping).get? subject ≠ none := by
        rw [Table.get?_insert, if_pos rfl]
        simp
      refine ⟨?_, ?_, ?_, ?_⟩
      · intro t ht
        rw [← htranslated] at ht
        exact hrest.kept (Distinct.mem_union.mpr (Or.inl ht))
      · intro s hs
        apply hrest.known
        rw [Table.get?_insert]
        split
        · simp
        · exact hs
      · intro s m hm
        rcases hrest.conform s m hm with hm | ⟨t, ht, hconform⟩
        · rw [Table.get?_insert] at hm
          split at hm
          · rename_i heq
            obtain rfl := Option.some.inj hm
            refine Or.inr ⟨template, heq ▸ List.mem_cons_self, ?_⟩
            rw [heq]
            exact (matchObjectsOf_ok hp hq').mono hstatements
          · exact Or.inl hm
        · exact Or.inr ⟨t, List.mem_cons_of_mem _ ht, hconform⟩
      · intro hempty _
        obtain ⟨m, hm⟩ := Option.ne_none_iff_exists'.mp (hrest.known subject hsubject)
        exact absurd hempty (Table.entries_ne_nil hm)
    · rename_i failure₁ q' hq'
      have hrest := ih (hp.trans ((runs_matchObjectsOf hq').1.rollBack p)) h
      refine ⟨hrest.kept, hrest.known, ?_, ?_⟩
      · intro s m hm
        rcases hrest.conform s m hm with hm | ⟨t, ht, hconform⟩
        · exact Or.inl hm
        · exact Or.inr ⟨t, List.mem_cons_of_mem _ ht, hconform⟩
      · intro hempty hnone
        exact absurd (hrest.nonempty hempty hnone).2 (by simp)

end Pass

end GraphConformance.Conformance
