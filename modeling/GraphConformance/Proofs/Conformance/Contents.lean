import GraphConformance.Proofs.Conformance.Acceptance
import GraphConformance.Proofs.Conformance.Rollback
import Mathlib.Data.Set.Lattice

/-!
# What an accepted document contains

`Course` records the stages of a pass that accepts a document. Each step of a pass adds sets of
defaults and of translated statements (`Adds`), or, when it fails, none. What a pair of subjects or
of objects adds is told by the translator at the end of the pass, which answers every pair as it was
answered at its turn (`translate_eq_of_runs`).

`contents_of_conform?` puts the steps together: an accepted document holds the statements of the
instance, the defaults of what succeeded and the statements found for it, and no others.
-/

set_option autoImplicit false

namespace GraphConformance.Conformance

open Vocabulary

namespace Pass

/-! ## What a pair adds -/

section Sets

variable (pass : Pass) (f : Progress) (individual template : Term)

/-- The literals of a template individual under properties of content for which the instance
individual has no value. -/
def defaultsFor : Set Triple :=
  {x | x.subject = individual ∧ ⟨template, x.predicate, x.object⟩ ∈ pass.template.store.triples ∧
    (∃ l, x.object = .literal l) ∧
    ∃ p, x.predicate = .iri p ∧ isReserved p = false ∧
      ∀ v, ⟨individual, .iri p, v⟩ ∉ pass.candidate.store.triples}

/-- The statements that the translator finds for a pair. -/
def foundFor : Set Triple :=
  {x | ∃ statements, (pass.translate individual template f).1 = .ok statements ∧ x ∈ statements}

/-- The translation of a pair does not fail: it is not asked for, or finds statements. -/
def Passes : Prop :=
  pass.options.translate = true →
    ∃ statements, (pass.translate individual template f).1 = .ok statements

/-- The statements for a pair of objects: the types of the template's object when nothing is said of
the other one, and otherwise what the translator finds. -/
def objectFor : Set Triple :=
  {x | pass.knowledge.typeProfile individual = .ok .top ∧ x ∈ pass.copiedTypes individual template ∨
    ∃ profile, pass.knowledge.typeProfile individual = .ok profile ∧ profile ≠ .top ∧
      x ∈ pass.foundFor f individual template}

end Sets

end Pass

/-- The stages of a pass that accepts a document. -/
structure Course (pass : Pass) (d : Accepted) where
  /-- The graph of the instance. -/
  graph : Term
  /-- The graphs of the template that were tried before the matching one, and those after it. -/
  before : List Term
  after : List Term
  /-- The progress after the resources, before and after the subjects, and at the end. -/
  checked : Progress
  selected : Progress
  matched : Progress
  finished : Progress
  /-- The last failure of objects. -/
  failure : Option Failure
  checkResource : pass.checkResource .start = (.ok (), checked)
  firstGraph : pass.candidate.graphs.head? = some graph
  templateGraphs : pass.template.graphs = before ++ d.graph :: after
  skips : pass.Skips graph before checked selected
  matchSubjects : pass.matchSubjects graph d.graph selected = (.ok d.subjects, matched)
  matchObjects :
    pass.matchObjects d.subjects.pairs ∅ none matched = ((d.objects, failure), finished)
  /-- Some objects were mapped, or none failed. -/
  succeeds : d.objects.entries = [] → failure = none
  commit : d = pass.commit d.graph d.subjects d.objects finished

/-- What an accepted document contains, by what succeeded in the course of its pass. -/
structure Contents (pass : Pass) (d : Accepted) (c : Course pass d) : Prop where
  candidate_first : pass.candidate.store.triples <+: d.document.triples
  mem_document : ∀ x, x ∈ d.document.triples ↔
    x ∈ pass.candidate.store.triples ∨
      (pass.options.closedWorldDefaults = true ∧
        (x ∈ pass.defaultsFor pass.candidate.resource pass.template.resource ∨
          (∃ i t, d.subjects.template? i = some t ∧ pass.Passes c.finished i t ∧
            x ∈ pass.defaultsFor i t) ∨
          ∃ s m o t, d.objects.get? s = some m ∧ m.template? o = some t ∧
            x ∈ pass.defaultsFor o t)) ∨
      x ∈ d.translated
  mem_translated : ∀ x, x ∈ d.translated ↔
    pass.options.translate = true ∧
      ((∃ i t, d.subjects.template? i = some t ∧ x ∈ pass.foundFor c.finished i t) ∨
        ∃ s m o t, d.objects.get? s = some m ∧ m.template? o = some t ∧
          x ∈ pass.objectFor c.finished o t)
  /-- What the translator answered at some time of the pass is what it answers at the end. -/
  answered : ∀ p i t, pass.Reaches p → pass.Runs (pass.translate i t p).2 c.finished →
    (pass.translate i t c.finished).1 = (pass.translate i t p).1

namespace Pass

variable {pass : Pass} {individual template : Term} {p q f : Progress}

/-- An answer stays: whatever is asked in between, a pair is answered again as it was. -/
theorem translate_eq_of_runs (hp : pass.Reaches p)
    (h : pass.Runs (pass.translate individual template p).2 f) :
    (pass.translate individual template f).1 = (pass.translate individual template p).1 := by
  unfold translate at h ⊢
  cases htarget : pass.knowledge.typeProfile template with
  | error e => rfl
  | ok target =>
    rw [htarget] at h
    obtain ⟨calls, -, hcalls⟩ := hp
    obtain ⟨later, -, hlater⟩ := h
    -- no pair is in progress between calls
    have hpending := (Translator.faithful_run (Translator.faithful_new pass.knowledge.reasoner)
      calls).pending
    have hidle : p.translator.memo.known (target, individual) ≠ some .inProgress := by
      rw [hcalls]
      intro hm
      exact absurd ((hpending (target, individual)).mp hm) (by simp)
    have hagain := translate_run_of_translate (r := pass.knowledge.reasoner) hidle later
    rw [← hlater] at hagain
    exact hagain

/-- Of an acyclic pair the translator says at any time what a new translator says. -/
theorem toOption_translate_of_acyclic {profile : Expression} (hp : pass.Reaches p)
    (hprofile : pass.knowledge.typeProfile template = .ok profile)
    (hacyclic : pass.knowledge.Acyclic (profile, individual)) :
    (pass.translate individual template p).1.toOption =
      (Translator.new.translate pass.knowledge.reasoner profile individual).1.toOption := by
  obtain ⟨calls, -, hcalls⟩ := hp
  unfold translate
  rw [hprofile]
  have hnew := toOption_translate_of_shared calls profile individual
    fun _ _ hmet => hacyclic.of_knows hmet
  rw [hnew, Translator.after, ← show p.translator = Translator.new.run _ calls from hcalls]

end Pass

/-! ## What the steps add -/

/-- From `p` to `q`, the sets `D` of defaults and `T` of translated statements are added. -/
structure Progress.Adds (p q : Progress) (D T : Set Triple) : Prop where
  defaults : ∀ x, x ∈ q.defaults ↔ x ∈ p.defaults ∨ x ∈ D
  translated : ∀ x, x ∈ q.translated ↔ x ∈ p.translated ∨ x ∈ T

theorem Progress.Adds.trans {p q s : Progress} {D D' T T' : Set Triple} (h : p.Adds q D T)
    (h' : q.Adds s D' T') : p.Adds s (D ∪ D') (T ∪ T') := by
  constructor
  · intro x
    rw [h'.defaults, h.defaults, Set.mem_union, or_assoc]
  · intro x
    rw [h'.translated, h.translated, Set.mem_union, or_assoc]

namespace Pass

section Sets

variable (pass : Pass) (f : Progress)

/-- The defaults of a pair, if the options ask for them. -/
def filled (individual template : Term) : Set Triple :=
  {x | pass.options.closedWorldDefaults = true ∧ x ∈ pass.defaultsFor individual template}

/-- The defaults that pairs of subjects add. -/
def subjectDefaults (pairs : List (Term × Term)) : Set Triple :=
  {x | ∃ i t, (i, t) ∈ pairs ∧ pass.Passes f i t ∧ x ∈ pass.filled i t}

/-- The statements that pairs of subjects add. -/
def subjectStatements (pairs : List (Term × Term)) : Set Triple :=
  {x | pass.options.translate = true ∧ ∃ i t, (i, t) ∈ pairs ∧ x ∈ pass.foundFor f i t}

/-- The defaults that pairs of objects add. -/
def objectDefaults (pairs : List (Term × Term)) : Set Triple :=
  {x | ∃ o t, (o, t) ∈ pairs ∧ x ∈ pass.filled o t}

/-- The statements that pairs of objects add. -/
def objectsFor (pairs : List (Term × Term)) : Set Triple :=
  {x | pass.options.translate = true ∧ ∃ o t, (o, t) ∈ pairs ∧ x ∈ pass.objectFor f o t}

end Sets

variable {pass : Pass} {individual template : Term} {p q f : Progress}

theorem mem_defaults {x : Triple} :
    x ∈ pass.defaults individual template ↔ x ∈ pass.defaultsFor individual template := by
  rw [defaults, List.mem_map, defaultsFor, Set.mem_ofPred_eq]
  constructor
  · rintro ⟨⟨property, value⟩, hmem, rfl⟩
    rw [List.mem_filter, Store.mem_outgoing] at hmem
    obtain ⟨hedge, hdefault⟩ := hmem
    unfold isDefault at hdefault
    split at hdefault
    · rename_i iri l heq
      obtain ⟨rfl, rfl⟩ := Prod.mk.inj heq
      rw [Bool.and_eq_true, Bool.not_eq_true', Option.isNone_iff_eq_none,
        Store.object?_eq_none_iff] at hdefault
      exact ⟨rfl, hedge, ⟨l, rfl⟩, iri, rfl, hdefault⟩
    · exact absurd hdefault (by simp)
  · rintro ⟨hsubject, hedge, ⟨l, hl⟩, iri, hiri, hdefault⟩
    refine ⟨(x.predicate, x.object), ?_, by rw [← hsubject]⟩
    rw [List.mem_filter, Store.mem_outgoing]
    refine ⟨hedge, ?_⟩
    rw [hl, hiri, isDefault, Bool.and_eq_true, Bool.not_eq_true', Option.isNone_iff_eq_none,
      Store.object?_eq_none_iff]
    exact hdefault

theorem mem_addDefaults {x : Triple} :
    x ∈ (pass.addDefaults individual template p).defaults ↔
      x ∈ p.defaults ∨ x ∈ pass.filled individual template := by
  unfold addDefaults
  split
  · rename_i hon
    rw [Distinct.mem_union, mem_defaults, filled, Set.mem_ofPred_eq, and_iff_right hon]
  · rename_i hoff
    rw [filled, Set.mem_ofPred_eq, or_iff_left (fun h => hoff h.1)]

/-! ### Subjects -/

/-- A pair of subjects adds its defaults and its statements, or nothing when it is skipped. -/
theorem passSubject_adds {required : Bool} (hp : pass.Reaches p)
    (h : pass.passSubject required individual template p = (.ok (), q)) (hf : pass.Runs q f) :
    p.Adds q {x | pass.Passes f individual template ∧ x ∈ pass.filled individual template}
      {x | pass.options.translate = true ∧ x ∈ pass.foundFor f individual template} := by
  have hfilled := hp.trans (pass.runs_addDefaults individual template p)
  unfold passSubject at h
  dsimp only at h
  split at h
  · rename_i hon
    split at h
    · rename_i statements q' hq'
      obtain ⟨-, rfl⟩ := Prod.mk.inj h
      -- at the end the translator gives the same statements
      have hend : (pass.translate individual template f).1 = .ok statements := by
        rw [translate_eq_of_runs hfilled (by rw [hq']; exact hf), hq']
      have hpasses : pass.Passes f individual template := fun _ => ⟨statements, hend⟩
      constructor
      · intro x
        rw [translate_defaults hq', mem_addDefaults]
        simp [hpasses]
      · intro x
        rw [Distinct.mem_union, (runs_translate hq').2, addDefaults_translated]
        simp [hon, foundFor, hend]
    · rename_i failure q' hq'
      split at h
      · exact absurd (Prod.mk.inj h).1 (by simp)
      -- skipped: at the end the pair fails too, so neither set has anything for it
      · obtain ⟨-, rfl⟩ := Prod.mk.inj h
        have hend : (pass.translate individual template f).1 = .error failure := by
          rw [translate_eq_of_runs hfilled (by rw [hq']; exact hf), hq']
        constructor
        · simp [Progress.rollBack, Passes, hon, hend]
        · simp [Progress.rollBack, foundFor, hend]
  · rename_i hoff
    obtain ⟨-, rfl⟩ := Prod.mk.inj h
    constructor
    · intro x
      rw [mem_addDefaults]
      simp [Passes, hoff]
    · simp [addDefaults_translated, hoff]

theorem subjectDefaults_cons {rest : List (Term × Term)} :
    pass.subjectDefaults f ((individual, template) :: rest) =
      {x | pass.Passes f individual template ∧ x ∈ pass.filled individual template} ∪
        pass.subjectDefaults f rest := by
  ext x
  simp [subjectDefaults, or_and_right, exists_or]

theorem subjectStatements_cons {rest : List (Term × Term)} :
    pass.subjectStatements f ((individual, template) :: rest) =
      {x | pass.options.translate = true ∧ x ∈ pass.foundFor f individual template} ∪
        pass.subjectStatements f rest := by
  ext x
  simp [subjectStatements, or_and_right, exists_or, and_or_left]

theorem passSubjects_adds {mapping : Mapping} {pairs : List (Term × Term)} (hp : pass.Reaches p)
    (h : pass.passSubjects mapping pairs p = (.ok (), q)) (hf : pass.Runs q f) :
    p.Adds q (pass.subjectDefaults f pairs) (pass.subjectStatements f pairs) := by
  induction pairs generalizing p with
  | nil =>
    obtain ⟨-, rfl⟩ := Prod.mk.inj h
    exact ⟨by simp [subjectDefaults], by simp [subjectStatements]⟩
  | cons pair rest ih =>
    obtain ⟨individual, template⟩ := pair
    rw [passSubjects] at h
    split at h
    · exact absurd (Prod.mk.inj h).1 (by simp)
    · rename_i q' hq'
      have hfirst := passSubject_adds hp hq' ((runs_passSubjects h).trans hf)
      have hall := hfirst.trans (ih (hp.trans (runs_passSubject hq')) h)
      rw [subjectDefaults_cons, subjectStatements_cons]
      exact hall

/-! ### Objects -/

theorem objectStatements_adds {statements : List Triple} (hp : pass.Reaches p)
    (h : pass.objectStatements individual template p = (.ok statements, q)) (hf : pass.Runs q f)
    {x : Triple} : x ∈ statements ↔ x ∈ pass.objectFor f individual template := by
  rw [objectFor, Set.mem_ofPred_eq]
  unfold objectStatements at h
  split at h
  · exact absurd (Prod.mk.inj h).1 (by simp)
  · rename_i profile hprofile
    rw [hprofile]
    split at h
    · rename_i htop
      subst htop
      rw [← Except.ok.inj (Prod.mk.inj h).1]
      simp
    · rename_i htop
      have hend : (pass.translate individual template f).1 = .ok statements := by
        rw [translate_eq_of_runs hp (by rw [h]; exact hf), h]
      rw [foundFor, Set.mem_ofPred_eq, hend]
      simp [htop]

theorem passObjects_adds {pairs : List (Term × Term)} {statements all : List Triple}
    (hp : pass.Reaches p) (h : pass.passObjects pairs statements p = (.ok all, q))
    (hf : pass.Runs q f) {x : Triple} :
    (x ∈ q.defaults ↔ x ∈ p.defaults ∨ x ∈ pass.objectDefaults pairs) ∧
      (x ∈ all ↔ x ∈ statements ∨ x ∈ pass.objectsFor f pairs) := by
  induction pairs generalizing p statements with
  | nil =>
    obtain ⟨hall, rfl⟩ := Prod.mk.inj h
    obtain rfl := Except.ok.inj hall
    exact ⟨by simp [objectDefaults], by simp [objectsFor]⟩
  | cons pair rest ih =>
    obtain ⟨individual, template⟩ := pair
    have hfilled := hp.trans (pass.runs_addDefaults individual template p)
    have hdefaults : x ∈ pass.objectDefaults ((individual, template) :: rest) ↔
        x ∈ pass.filled individual template ∨ x ∈ pass.objectDefaults rest := by
      simp [objectDefaults, or_and_right, exists_or]
    rw [passObjects] at h
    split at h
    · rename_i hon
      split at h
      · exact absurd (Prod.mk.inj h).1 (by simp)
      · rename_i found q' hq'
        obtain ⟨hruns, -⟩ := runs_objectStatements hq'
        obtain ⟨hd, hs⟩ := ih (hfilled.trans hruns) h
        have hfound := objectStatements_adds hfilled hq' ((runs_passObjects h).1.trans hf) (x := x)
        have hobjects : x ∈ pass.objectsFor f ((individual, template) :: rest) ↔
            x ∈ pass.objectFor f individual template ∨ x ∈ pass.objectsFor f rest := by
          simp [objectsFor, hon, or_and_right, exists_or]
        constructor
        · rw [hd, hdefaults, objectStatements_defaults hq', mem_addDefaults, or_assoc]
        · rw [hs, hobjects, Distinct.mem_union, hfound, or_assoc]
    · rename_i hoff
      obtain ⟨hd, hs⟩ := ih hfilled h
      constructor
      · rw [hd, hdefaults, mem_addDefaults, or_assoc]
      · rw [hs]
        simp [objectsFor, hoff]

/-- The objects of a subject add their defaults; their statements are answered. -/
theorem matchObjectsOf_adds {subject : Term} {m : Mapping} {statements : List Triple}
    (hp : pass.Reaches p)
    (h : pass.matchObjectsOf subject template p = (.ok (m, statements), q)) (hf : pass.Runs q f)
    {x : Triple} :
    (x ∈ q.defaults ↔ x ∈ p.defaults ∨ x ∈ pass.objectDefaults m.pairs) ∧
      (x ∈ statements ↔ x ∈ pass.objectsFor f m.pairs) := by
  unfold matchObjectsOf at h
  dsimp only at h
  split at h
  · exact absurd (Prod.mk.inj h).1 (by simp)
  · split at h
    · exact absurd (Prod.mk.inj h).1 (by simp)
    · rename_i found q' hq'
      obtain ⟨hanswer, rfl⟩ := Prod.mk.inj h
      obtain ⟨rfl, rfl⟩ := Prod.mk.inj (Except.ok.inj hanswer)
      simpa using passObjects_adds hp hq' hf (x := x)

theorem runs_matchObjects {pairs : List (Term × Term)} {mapped : Table Term Mapping}
    {failure : Option Failure} {result : Table Term Mapping × Option Failure}
    (h : pass.matchObjects pairs mapped failure p = (result, q)) : pass.Runs p q := by
  induction pairs generalizing mapped failure p with
  | nil =>
    obtain ⟨-, rfl⟩ := Prod.mk.inj h
    exact .of_eq rfl
  | cons pair rest ih =>
    obtain ⟨subject, template⟩ := pair
    rw [matchObjects] at h
    split at h
    · rename_i mapping statements q' hq'
      have hruns : pass.Runs p { q' with translated := Distinct.union q'.translated statements } :=
        (runs_matchObjectsOf hq').1
      exact hruns.trans (ih h)
    · rename_i failure' q' hq'
      exact ((runs_matchObjectsOf hq').1.rollBack p).trans (ih h)

/-- What mapping the objects of pairs of subjects adds: all that belongs to the pairs which a
subject was given a mapping for, and nothing for the other subjects. -/
structure ObjectsAdd (pass : Pass) (f : Progress) (pairs : List (Term × Term))
    (mapped : Table Term Mapping) (p : Progress) (objects : Table Term Mapping) (q : Progress) :
    Prop where
  others : ∀ s, s ∉ pairs.map Prod.fst → objects.get? s = mapped.get? s
  adds : p.Adds q
    {x | ∃ s m, s ∈ pairs.map Prod.fst ∧ objects.get? s = some m ∧ x ∈ pass.objectDefaults m.pairs}
    {x | ∃ s m, s ∈ pairs.map Prod.fst ∧ objects.get? s = some m ∧ x ∈ pass.objectsFor f m.pairs}

theorem matchObjects_adds {pairs : List (Term × Term)} {mapped objects : Table Term Mapping}
    {failure failure' : Option Failure} (hp : pass.Reaches p)
    (hkeys : (pairs.map Prod.fst).Nodup)
    (hnew : ∀ s ∈ pairs.map Prod.fst, mapped.get? s = none)
    (h : pass.matchObjects pairs mapped failure p = ((objects, failure'), q))
    (hf : pass.Runs q f) : pass.ObjectsAdd f pairs mapped p objects q := by
  induction pairs generalizing mapped failure p with
  | nil =>
    obtain ⟨hanswer, rfl⟩ := Prod.mk.inj h
    obtain ⟨rfl, rfl⟩ := Prod.mk.inj hanswer
    exact ⟨fun _ _ => rfl, by simp, by simp⟩
  | cons pair rest ih =>
    obtain ⟨subject, template⟩ := pair
    rw [List.map_cons, List.nodup_cons] at hkeys
    obtain ⟨hsubject, hkeys⟩ := hkeys
    have hmem : ∀ s, s ∈ ((subject, template) :: rest).map Prod.fst ↔
        s = subject ∨ s ∈ rest.map Prod.fst := fun s => List.mem_cons
    rw [matchObjects] at h
    split at h
    · rename_i mapping statements q' hq'
      have hruns : pass.Runs p { q' with translated := Distinct.union q'.translated statements } :=
        (runs_matchObjectsOf hq').1
      have hget : ∀ s, (mapped.insert subject mapping).get? s =
          if s = subject then some mapping else mapped.get? s :=
        fun s => Table.get?_insert mapped subject s mapping
      have hnew' : ∀ s ∈ rest.map Prod.fst, (mapped.insert subject mapping).get? s = none := by
        intro s hs
        have hne : s ≠ subject := fun heq => hsubject (heq ▸ hs)
        rw [hget, if_neg hne]
        exact hnew s ((hmem s).mpr (Or.inr hs))
      have hrest := ih (hp.trans hruns) hkeys hnew' h
      -- no later pair is of the same subject, so its mapping stays
      have hown : objects.get? subject = some mapping := by
        rw [hrest.others subject hsubject, hget, if_pos rfl]
      have hfirst := fun x => matchObjectsOf_adds hp hq' ((runs_matchObjects h).trans hf) (x := x)
      constructor
      · intro s hs
        rw [hmem, not_or] at hs
        rw [hrest.others s hs.2, hget, if_neg hs.1]
      · constructor
        · intro x
          rw [hrest.adds.defaults, (hfirst x).1, or_assoc]
          simp [hown, or_and_right, exists_or]
        · intro x
          rw [hrest.adds.translated, Distinct.mem_union, (runs_matchObjectsOf hq').2,
            (hfirst x).2, or_assoc]
          simp [hown, or_and_right, exists_or]
    · rename_i failure₁ q' hq'
      have hrest := ih (hp.trans ((runs_matchObjectsOf hq').1.rollBack p)) hkeys
        (fun s hs => hnew s ((hmem s).mpr (Or.inr hs))) h
      -- nor does a later pair give a mapping to a subject that failed
      have hown : objects.get? subject = none := by
        rw [hrest.others subject hsubject]
        exact hnew subject ((hmem subject).mpr (Or.inl rfl))
      constructor
      · intro s hs
        rw [hmem, not_or] at hs
        exact hrest.others s hs.2
      · constructor
        · intro x
          rw [hrest.adds.defaults]
          simp [hown, or_and_right, exists_or, Progress.rollBack]
        · intro x
          rw [hrest.adds.translated]
          simp [hown, or_and_right, exists_or, Progress.rollBack]

/-! ## The whole pass -/

/-- A pass accepts with a graph unless a subject failed and none passed. -/
theorem finish_eq_ok_iff {graph : Term} {subjects : Mapping} {objects : Table Term Mapping}
    {failure : Option Failure} {d : Accepted}
    (h : pass.matchObjects subjects.pairs ∅ none p = ((objects, failure), q)) :
    pass.finish graph subjects p = .ok d ↔
      (objects.entries = [] → failure = none) ∧ d = pass.commit graph subjects objects q := by
  constructor
  · intro hd
    obtain ⟨objects', failure', q', h', hnone, rfl⟩ := finish_ok hd
    obtain ⟨hanswer, rfl⟩ := Prod.mk.inj (h'.symm.trans h)
    obtain ⟨rfl, rfl⟩ := Prod.mk.inj hanswer
    exact ⟨hnone, rfl⟩
  · rintro ⟨hnone, rfl⟩
    unfold finish
    rw [h]
    split
    · rename_i hkeys failure' heq
      -- no object is mapped, so no failure is left to answer
      obtain ⟨hanswer, -⟩ := Prod.mk.inj heq
      obtain ⟨rfl, rfl⟩ := Prod.mk.inj hanswer
      exact absurd (hnone rfl) (by simp)
    · rename_i objects' failure' q' hnot heq
      obtain ⟨hanswer, rfl⟩ := Prod.mk.inj heq
      obtain ⟨rfl, -⟩ := Prod.mk.inj hanswer
      rfl

/-- What rejected graphs collected is taken back. -/
theorem Skips.collected {graph : Term} {templateGraphs : List Term}
    (h : pass.Skips graph templateGraphs p q) :
    q.defaults = p.defaults ∧ q.translated = p.translated := by
  induction h with
  | nil p => exact ⟨rfl, rfl⟩
  | cons h hrest ih => exact ih

theorem nonempty_course {d : Accepted} (h : pass.checked = .ok d) : Nonempty (Course pass d) := by
  obtain ⟨checked, graph, hresource, hgraph, htry⟩ := run_ok (checked_ok h).2
  obtain ⟨before, templateGraph, after, selected, m, matched, hgraphs, hskips, hm, hfinish⟩ :=
    tryGraphs_ok htry
  obtain ⟨objects, failure, finished, hobjects, hnone, rfl⟩ := finish_ok hfinish
  exact ⟨graph, before, after, checked, selected, matched, finished, failure, hresource, hgraph,
    hgraphs, hskips, hm, hobjects, hnone, rfl⟩

end Pass

namespace Course

variable {pass : Pass} {d : Accepted} (c : Course pass d)

theorem checked_eq : c.checked =
    pass.addDefaults pass.candidate.resource pass.template.resource .start :=
  (Pass.checkResource_ok c.checkResource).2.2

theorem reaches_selected : pass.Reaches c.selected := by
  refine c.skips.reaches ?_
  rw [checked_eq]
  exact pass.runs_addDefaults _ _ _

theorem reaches_matched : pass.Reaches c.matched :=
  c.reaches_selected.trans (Pass.runs_matchSubjects c.matchSubjects)

theorem reaches_finished : pass.Reaches c.finished :=
  c.reaches_matched.trans (Pass.runs_matchObjects c.matchObjects)

theorem adds_subjects : c.selected.Adds c.matched
    (pass.subjectDefaults c.finished d.subjects.pairs)
    (pass.subjectStatements c.finished d.subjects.pairs) :=
  Pass.passSubjects_adds c.reaches_selected (Pass.matchSubjects_ok c.matchSubjects).2
    (Pass.runs_matchObjects c.matchObjects)

theorem adds_objects : c.matched.Adds c.finished
    {x | ∃ s m, d.objects.get? s = some m ∧ x ∈ pass.objectDefaults m.pairs}
    {x | ∃ s m, d.objects.get? s = some m ∧ x ∈ pass.objectsFor c.finished m.pairs} := by
  have hadd := Pass.matchObjects_adds c.reaches_matched d.subjects.nodup_pairs
    (fun s _ => Table.get?_empty s) c.matchObjects (Pass.Runs.of_eq rfl)
  have hkey : ∀ s m, d.objects.get? s = some m → s ∈ d.subjects.pairs.map Prod.fst := by
    intro s m hm
    by_contra hs
    rw [hadd.others s hs] at hm
    exact absurd hm (by simp)
  have hdrop : ∀ D : Mapping → Set Triple,
      {x | ∃ s m, s ∈ d.subjects.pairs.map Prod.fst ∧ d.objects.get? s = some m ∧ x ∈ D m} =
        {x | ∃ s m, d.objects.get? s = some m ∧ x ∈ D m} := by
    intro D
    ext x
    constructor
    · rintro ⟨s, m, -, hm, hx⟩
      exact ⟨s, m, hm, hx⟩
    · rintro ⟨s, m, hm, hx⟩
      exact ⟨s, m, hkey s m hm, hm, hx⟩
  have hadds := hadd.adds
  rw [hdrop, hdrop] at hadds
  exact hadds

/-- The defaults at the end of a pass: those of the resources, of the subjects that are not skipped
and of the objects that are mapped. -/
theorem mem_defaults {x : Triple} : x ∈ c.finished.defaults ↔
    x ∈ pass.filled pass.candidate.resource pass.template.resource ∨
      x ∈ pass.subjectDefaults c.finished d.subjects.pairs ∨
        ∃ s m, d.objects.get? s = some m ∧ x ∈ pass.objectDefaults m.pairs := by
  rw [c.adds_objects.defaults, c.adds_subjects.defaults, c.skips.collected.1, checked_eq,
    Pass.mem_addDefaults, or_assoc]
  simp [Progress.start]

theorem mem_translated {x : Triple} : x ∈ c.finished.translated ↔
    x ∈ pass.subjectStatements c.finished d.subjects.pairs ∨
      ∃ s m, d.objects.get? s = some m ∧ x ∈ pass.objectsFor c.finished m.pairs := by
  rw [c.adds_objects.translated, c.adds_subjects.translated, c.skips.collected.2, checked_eq,
    Pass.addDefaults_translated]
  simp [Progress.start]

theorem translated_eq : d.translated = c.finished.translated :=
  congrArg Accepted.translated c.commit

theorem triples_document : d.document.triples =
    Distinct.union (Distinct.union pass.candidate.store.triples c.finished.defaults)
      d.translated := by
  rw [congrArg Accepted.document c.commit, c.translated_eq]
  simp only [Pass.commit, Store.triples_insertAll]

theorem contents : Contents pass d c where
  candidate_first := by
    rw [c.triples_document]
    exact (Distinct.prefix_union _ _).trans (Distinct.prefix_union _ _)
  mem_document := by
    intro x
    rw [c.triples_document, Distinct.mem_union, Distinct.mem_union, c.mem_defaults, or_assoc]
    simp only [Pass.filled, Pass.subjectDefaults, Pass.objectDefaults, Mapping.mem_pairs_iff,
      Set.mem_ofPred_eq]
    by_cases hon : pass.options.closedWorldDefaults = true
    · simp [hon]
    · simp [hon]
  mem_translated := by
    intro x
    rw [c.translated_eq, c.mem_translated]
    simp only [Pass.subjectStatements, Pass.objectsFor, Mapping.mem_pairs_iff, Set.mem_ofPred_eq]
    by_cases hon : pass.options.translate = true
    · simp [hon]
    · simp [hon]
  answered := fun p i t hp h => Pass.translate_eq_of_runs hp h

end Course

/-- Both documents of the pass are part of what is known. -/
structure Pass.Imports (pass : Pass) : Prop where
  candidate : pass.candidate.store.triples ⊆ pass.knowledge.store.triples
  template : pass.template.store.triples ⊆ pass.knowledge.store.triples

theorem imports_merge (ontology : Store) (maxDepth : Nat) (candidate template : Document)
    (options : Options) : Pass.Imports
      ⟨⟨(ontology.merge candidate.store).merge template.store, maxDepth⟩, candidate, template,
        options⟩ where
  candidate := fun _ ht => Store.mem_merge.mpr (Or.inl (Store.mem_merge.mpr (Or.inr ht)))
  template := fun _ ht => Store.mem_merge.mpr (Or.inr ht)

/-- A document that a knowledge base accepts comes out of a pass over the ontology with both
documents. -/
theorem checked_of_conform? {kb kb' : KnowledgeBase} {candidate template : Document}
    {options : Options} {result : Except Failure Accepted}
    (h : kb.conform? candidate template options = some (result, kb')) :
    Pass.checked ⟨⟨(kb.ontology.merge candidate.store).merge template.store, kb.maxDepth⟩,
      candidate, template, options⟩ = result := by
  unfold KnowledgeBase.conform? KnowledgeBase.withImported? KnowledgeBase.importAll? at h
  split at h
  · exact absurd h (by simp)
  · obtain ⟨⟨ticket, imported⟩, himported, hresult⟩ := Option.map_eq_some_iff.mp h
    obtain ⟨-, rfl⟩ := Prod.mk.inj (Option.some.inj himported)
    exact (Prod.mk.inj hresult).1

/-- A document that is accepted contains exactly what succeeded. -/
theorem contents_of_conform? (kb kb' : KnowledgeBase) (candidate template : Document)
    (options : Options) (d : Accepted)
    (h : kb.conform? candidate template options = some (.ok d, kb')) :
    ∃ c : Course
        ⟨⟨(kb.ontology.merge candidate.store).merge template.store, kb.maxDepth⟩, candidate,
          template, options⟩ d,
      Contents _ d c := by
  obtain ⟨c⟩ := Pass.nonempty_course (checked_of_conform? h)
  exact ⟨c, c.contents⟩

/-- The instance that is accepted by the second graph of its template. -/
theorem SecondGraph.contents_of_second_graph :
    ∃ d kb', (KnowledgeBase.ofOntology ∅ 2).conform? candidate template options =
        some (.ok d, kb') ∧
      ∃ c : Course pass d, c.before ++ d.graph :: c.after = pass.template.graphs ∧
        Contents pass d c := by
  obtain ⟨d, hd, -⟩ := accepted
  have hconform := KnowledgeBase.conform?_ofOntology ∅ 2 candidate template options
  rw [show conform ∅ 2 candidate template options = pass.checked from rfl, hd] at hconform
  obtain ⟨⟨result, kb'⟩, hkb', hresult⟩ := Option.map_eq_some_iff.mp hconform
  obtain rfl : result = .ok d := hresult
  obtain ⟨c, hc⟩ := contents_of_conform? _ _ _ _ _ _ hkb'
  exact ⟨d, kb', hkb', c, c.templateGraphs.symm, hc⟩

end GraphConformance.Conformance
