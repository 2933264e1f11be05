import GraphConformance.Proofs.Conformance.Contents
import GraphConformance.Proofs.Knowledge.Consistency

/-!
# Skipped subjects and their objects

An optional subject that cannot be translated is skipped: its defaults are taken back and nothing is
translated for it. The objects of a subject are then mapped for every mapped subject, of those that
were skipped too. Whether a pass accepts, and for which subjects it maps objects, is decided by the
objects alone (`mapsObjects_of_finish`).

`SkippedSubject` is an instance that is accepted only for the objects of a subject that was skipped.
-/

set_option autoImplicit false

namespace GraphConformance.Conformance

open Vocabulary

namespace Pass

variable {pass : Pass} {individual template : Term} {p q f : Progress}

/-! ## Objects that pass -/

/-- An answer about a pair of objects stays. -/
theorem objectStatements_eq_of_runs (hp : pass.Reaches p)
    (h : pass.Runs (pass.objectStatements individual template p).2 f) :
    (pass.objectStatements individual template f).1 =
      (pass.objectStatements individual template p).1 := by
  unfold objectStatements at h ⊢
  cases hprofile : pass.knowledge.typeProfile individual with
  | error e => rfl
  | ok profile =>
    rw [hprofile] at h
    by_cases htop : profile = .top
    · simp [htop]
    · simp only [htop, if_false] at h ⊢
      exact translate_eq_of_runs hp h

/-- Statements are found for a pair of objects, if they are asked for. -/
def ObjectPasses (pass : Pass) (f : Progress) (individual template : Term) : Prop :=
  pass.options.translate = true →
    ∃ statements, (pass.objectStatements individual template f).1 = .ok statements

/-- The objects of a subject are mapped, and all pairs of them pass. -/
structure MapsObjects (pass : Pass) (f : Progress) (subject template : Term) (m : Mapping) :
    Prop where
  isFound : Mapping.find? (pass.knowledge.accepts pass.options.objectKind)
    (pass.candidate.objects subject) (pass.template.objects template) = some m
  passes : ∀ o t, m.template? o = some t → pass.ObjectPasses f o t

theorem passObjects_ok_iff {pairs : List (Term × Term)} {statements : List Triple}
    {result : Except Failure (List Triple)} (hp : pass.Reaches p)
    (h : pass.passObjects pairs statements p = (result, q)) (hf : pass.Runs q f) :
    (∃ all, result = .ok all) ↔ ∀ o t, (o, t) ∈ pairs → pass.ObjectPasses f o t := by
  induction pairs generalizing p statements with
  | nil =>
    obtain ⟨rfl, -⟩ := Prod.mk.inj h
    simp
  | cons pair rest ih =>
    obtain ⟨individual, template⟩ := pair
    have hfilled := hp.trans (pass.runs_addDefaults individual template p)
    have hcons : (∀ o t, (o, t) ∈ (individual, template) :: rest → pass.ObjectPasses f o t) ↔
        pass.ObjectPasses f individual template ∧
          ∀ o t, (o, t) ∈ rest → pass.ObjectPasses f o t := by
      simp [or_imp, forall_and]
    rw [hcons]
    rw [passObjects] at h
    split at h
    · rename_i hon
      split at h
      · rename_i failure q' hq'
        obtain ⟨rfl, rfl⟩ := Prod.mk.inj h
        -- the pair that failed still fails at the end
        have hend := objectStatements_eq_of_runs hfilled (by rw [hq']; exact hf)
        rw [hq'] at hend
        simp [ObjectPasses, hon, hend]
      · rename_i found q' hq'
        have hruns := (runs_passObjects h).1.trans hf
        have hend := objectStatements_eq_of_runs hfilled (by rw [hq']; exact hruns)
        rw [hq'] at hend
        rw [ih (hfilled.trans (runs_objectStatements hq').1) h]
        simp [ObjectPasses, hon, hend]
    · rename_i hoff
      rw [ih hfilled h]
      simp [ObjectPasses, hoff]

theorem matchObjectsOf_ok_iff {subject : Term} {result : Except Failure (Mapping × List Triple)}
    (hp : pass.Reaches p) (h : pass.matchObjectsOf subject template p = (result, q))
    (hf : pass.Runs q f) {m : Mapping} :
    (∃ statements, result = .ok (m, statements)) ↔ pass.MapsObjects f subject template m := by
  unfold matchObjectsOf at h
  dsimp only at h
  split at h
  · rename_i hnone
    obtain ⟨rfl, -⟩ := Prod.mk.inj h
    constructor
    · rintro ⟨statements, hs⟩
      exact absurd hs (by simp)
    · intro hm
      exact absurd (hnone.symm.trans hm.isFound) (by simp)
  · rename_i mapping hfind
    have hpasses : ∀ {result' : Except Failure (List Triple)} {q' : Progress},
        pass.passObjects mapping.pairs [] p = (result', q') → pass.Runs q' f →
          ((∃ all, result' = .ok all) ↔ pass.MapsObjects f subject template mapping) := by
      intro result' q' hq' hf'
      rw [passObjects_ok_iff hp hq' hf']
      simp only [Mapping.mem_pairs_iff]
      exact ⟨fun h => ⟨hfind, h⟩, fun h => h.passes⟩
    have honly : pass.MapsObjects f subject template m → m = mapping := fun hm =>
      Option.some.inj (hm.isFound.symm.trans hfind)
    split at h
    · rename_i failure q' hq'
      obtain ⟨rfl, rfl⟩ := Prod.mk.inj h
      constructor
      · rintro ⟨statements, hs⟩
        exact absurd hs (by simp)
      · intro hm
        obtain rfl := honly hm
        obtain ⟨all, hall⟩ := (hpasses hq' hf).mpr hm
        exact absurd hall (by simp)
    · rename_i found q' hq'
      obtain ⟨rfl, rfl⟩ := Prod.mk.inj h
      constructor
      · rintro ⟨statements, hs⟩
        obtain ⟨rfl, -⟩ := Prod.mk.inj (Except.ok.inj hs)
        exact (hpasses hq' hf).mp ⟨found, rfl⟩
      · intro hm
        exact ⟨found, by rw [honly hm]⟩

/-- The subjects with mapped objects are those of the pairs whose objects all pass. -/
theorem matchObjects_get?_iff {pairs : List (Term × Term)} {mapped objects : Table Term Mapping}
    {failure failure' : Option Failure} (hp : pass.Reaches p)
    (hkeys : (pairs.map Prod.fst).Nodup)
    (hnew : ∀ s ∈ pairs.map Prod.fst, mapped.get? s = none)
    (h : pass.matchObjects pairs mapped failure p = ((objects, failure'), q))
    (hf : pass.Runs q f) {s : Term} {m : Mapping} :
    objects.get? s = some m ↔
      mapped.get? s = some m ∨ ∃ t, (s, t) ∈ pairs ∧ pass.MapsObjects f s t m := by
  induction pairs generalizing mapped failure p with
  | nil =>
    obtain ⟨hanswer, -⟩ := Prod.mk.inj h
    obtain ⟨rfl, -⟩ := Prod.mk.inj hanswer
    simp
  | cons pair rest ih =>
    obtain ⟨subject, template⟩ := pair
    rw [List.map_cons, List.nodup_cons] at hkeys
    obtain ⟨hsubject, hkeys⟩ := hkeys
    have hcons : (∃ t, (s, t) ∈ (subject, template) :: rest ∧ pass.MapsObjects f s t m) ↔
        (s = subject ∧ pass.MapsObjects f subject template m) ∨
          ∃ t, (s, t) ∈ rest ∧ pass.MapsObjects f s t m := by
      constructor
      · rintro ⟨t, hmem, hm⟩
        rcases List.mem_cons.mp hmem with heq | hmem
        · obtain ⟨rfl, rfl⟩ := Prod.mk.inj heq
          exact Or.inl ⟨rfl, hm⟩
        · exact Or.inr ⟨t, hmem, hm⟩
      · rintro (⟨rfl, hm⟩ | ⟨t, hmem, hm⟩)
        · exact ⟨template, List.mem_cons_self, hm⟩
        · exact ⟨t, List.mem_cons_of_mem _ hmem, hm⟩
    rw [hcons, ← or_assoc]
    have hunknown : mapped.get? subject = none := hnew subject List.mem_cons_self
    have hlater : ∀ s ∈ rest.map Prod.fst, mapped.get? s = none :=
      fun s hs => hnew s (List.mem_cons_of_mem _ hs)
    rw [matchObjects] at h
    split at h
    · rename_i mapping statements q' hq'
      have hruns : pass.Runs p { q' with translated := Distinct.union q'.translated statements } :=
        (runs_matchObjectsOf hq').1
      have hown := matchObjectsOf_ok_iff hp hq' ((runs_matchObjects h).trans hf) (m := m)
      have hnew' : ∀ s ∈ rest.map Prod.fst, (mapped.insert subject mapping).get? s = none := by
        intro s hs
        have hne : s ≠ subject := fun heq => hsubject (heq ▸ hs)
        rw [Table.get?_insert, if_neg hne]
        exact hlater s hs
      rw [ih (hp.trans hruns) hkeys hnew' h, Table.get?_insert, ← hown]
      by_cases hs : s = subject
      · simp [hs, hunknown]
      · simp [hs]
    · rename_i failure₁ q' hq'
      have hruns := (runs_matchObjectsOf hq').1.rollBack p
      have hown := matchObjectsOf_ok_iff hp hq' ((runs_matchObjects h).trans hf) (m := m)
      rw [ih (hp.trans hruns) hkeys hlater h, ← hown]
      simp

/-! ## Acceptance is decided by objects -/

/-- A pass that has mapped the subjects of a graph accepts exactly if none is mapped, or the objects
of a mapped subject can be mapped and pass. It maps the objects of all mapped subjects that allow
it, whether they were translated or skipped before. -/
theorem mapsObjects_of_finish (pass : Pass) (graph : Term) (subjects : Mapping) (p : Progress)
    (hp : pass.Reaches p) :
    ((∃ d, pass.finish graph subjects p = .ok d) ↔
      subjects.pairs = [] ∨ ∃ s t m, subjects.template? s = some t ∧
        pass.MapsObjects (pass.matchObjects subjects.pairs ∅ none p).2 s t m) ∧
    ∀ d, pass.finish graph subjects p = .ok d → ∀ s m, d.objects.get? s = some m ↔
      ∃ t, subjects.template? s = some t ∧
        pass.MapsObjects (pass.matchObjects subjects.pairs ∅ none p).2 s t m := by
  obtain ⟨⟨⟨objects, failure⟩, q⟩, hq⟩ :
      ∃ result, pass.matchObjects subjects.pairs ∅ none p = result := ⟨_, rfl⟩
  have hget : ∀ s m, objects.get? s = some m ↔
      ∃ t, subjects.template? s = some t ∧ pass.MapsObjects q s t m := by
    intro s m
    rw [matchObjects_get?_iff hp subjects.nodup_pairs (fun s _ => Table.get?_empty s) hq
      (Runs.of_eq rfl)]
    simp [Mapping.mem_pairs_iff]
  rw [hq]
  constructor
  -- no failure is kept back when nothing is mapped, so there was no pair to fail
  · constructor
    · rintro ⟨d, hd⟩
      have hnone := ((finish_eq_ok_iff hq).mp hd).1
      cases hentries : objects.entries with
      | nil => exact Or.inl ((matchObjects_spec hp hq).nonempty hentries (hnone hentries)).1
      | cons entry entries =>
        obtain ⟨s, m⟩ := entry
        have hentry : (s, m) ∈ objects.entries := by
          rw [hentries]
          exact List.mem_cons_self
        obtain ⟨t, ht, hm⟩ := (hget s m).mp (Table.mem_entries_iff.mp hentry)
        exact Or.inr ⟨s, t, m, ht, hm⟩
    · intro h
      refine ⟨_, (finish_eq_ok_iff hq).mpr ⟨?_, rfl⟩⟩
      intro hentries
      rcases h with hpairs | ⟨s, t, m, ht, hm⟩
      · rw [hpairs] at hq
        exact (Prod.mk.inj (Prod.mk.inj hq).1).2.symm
      · exact absurd hentries (Table.entries_ne_nil ((hget s m).mpr ⟨t, ht, hm⟩))
  · intro d hd s m
    obtain ⟨-, rfl⟩ := (finish_eq_ok_iff hq).mp hd
    exact hget s m

end Pass

/-! ### A pass that accepts for a skipped subject

The template has a subject of a class with one object. Of the subjects of the instance the first one
has the class, but no object; the second one has an object, but not the class. -/

namespace SkippedSubject

def candidate : Document where
  store := .ofList
    [⟨.iri ⟨"r"⟩, .iri Protocol.hasGraph, .iri ⟨"g"⟩⟩,
      ⟨.iri ⟨"g"⟩, .iri Protocol.hasSubject, .iri ⟨"s"⟩⟩,
      ⟨.iri ⟨"g"⟩, .iri Protocol.hasSubject, .iri ⟨"z"⟩⟩,
      ⟨.iri ⟨"s"⟩, .iri Rdf.type, .iri ⟨"P"⟩⟩,
      ⟨.iri ⟨"z"⟩, .iri ⟨"p"⟩, .iri ⟨"o"⟩⟩]
  resource := .iri ⟨"r"⟩

def template : Document where
  store := .ofList
    [⟨.iri ⟨"r"⟩, .iri Protocol.hasGraph, .iri ⟨"h"⟩⟩,
      ⟨.iri ⟨"h"⟩, .iri Protocol.hasSubject, .iri ⟨"t"⟩⟩,
      ⟨.iri ⟨"t"⟩, .iri Rdf.type, .iri ⟨"P"⟩⟩,
      ⟨.iri ⟨"t"⟩, .iri ⟨"p"⟩, .iri ⟨"u"⟩⟩,
      ⟨.iri ⟨"u"⟩, .iri Rdf.type, .iri ⟨"U"⟩⟩]
  resource := .iri ⟨"r"⟩

def pass : Pass :=
  ⟨⟨(Store.merge ∅ candidate.store).merge template.store, 2⟩, candidate, template,
    SecondGraph.options⟩

/-- What is told of an accepted document: the graph, whether the subject `z` is optional, its
template subject, and the subjects with objects. -/
def summary (d : Accepted) : Term × Bool × Option Term × List Term × List Triple :=
  (d.graph, d.subjects.isRequired (.iri ⟨"z"⟩), d.subjects.template? (.iri ⟨"z"⟩), d.objects.keys,
    d.translated)

theorem accepted : ∃ d, pass.checked = .ok d ∧ summary d =
    (.iri ⟨"h"⟩, false, some (.iri ⟨"t"⟩), [.iri ⟨"z"⟩],
      [⟨.iri ⟨"s"⟩, .iri Rdf.type, .iri ⟨"P"⟩⟩, ⟨.iri ⟨"o"⟩, .iri Rdf.type, .iri ⟨"U"⟩⟩]) :=
  Pass.exists_checked_eq_ok (Store.checkConsistency_of_silent (by decide +kernel))
    (by decide +kernel)

theorem not_passes {p : Progress} (hp : pass.Reaches p) :
    ¬ pass.Passes p (.iri ⟨"z"⟩) (.iri ⟨"t"⟩) := by
  have hprofile : pass.knowledge.typeProfile (.iri ⟨"t"⟩) = .ok (.named ⟨"P"⟩) := by rfl
  have hacyclic : pass.knowledge.Acyclic (.named ⟨"P"⟩, .iri ⟨"z"⟩) := by
    unfold Knowledge.Acyclic
    decide +kernel
  have hnew : (Translator.new.translate pass.knowledge.reasoner (.named ⟨"P"⟩)
      (.iri ⟨"z"⟩)).1.toOption = none := by decide +kernel
  intro h
  obtain ⟨statements, hstatements⟩ := h rfl
  have heq := Pass.toOption_translate_of_acyclic hp hprofile hacyclic
  rw [hstatements, hnew] at heq
  exact absurd heq (by simp [Except.toOption])

/-- The subject `z` is optional and not translated; its object is the only one that is mapped, and
is given a type. -/
theorem accepted_for_skipped : ∃ (d : Accepted) (c : Course pass d),
    d.subjects.isRequired (.iri ⟨"z"⟩) = false ∧
      d.subjects.template? (.iri ⟨"z"⟩) = some (.iri ⟨"t"⟩) ∧
      ¬ pass.Passes c.finished (.iri ⟨"z"⟩) (.iri ⟨"t"⟩) ∧
      d.objects.keys = [.iri ⟨"z"⟩] ∧
      ⟨.iri ⟨"o"⟩, .iri Rdf.type, .iri ⟨"U"⟩⟩ ∈ d.translated := by
  obtain ⟨d, hd, hsummary⟩ := accepted
  obtain ⟨c⟩ := Pass.nonempty_course hd
  obtain ⟨-, hrequired, htemplate, hkeys, htranslated⟩ :
      _ ∧ _ ∧ _ ∧ _ ∧ d.translated = _ := by simpa [summary] using hsummary
  refine ⟨d, c, hrequired, htemplate, not_passes c.reaches_finished, hkeys, ?_⟩
  rw [htranslated]
  exact List.mem_cons_of_mem _ List.mem_cons_self

theorem mapsObjects_of_finish_skipped : ∃ (d : Accepted) (c : Course pass d),
    pass.Reaches c.matched ∧ ∀ s m, d.objects.get? s = some m ↔
      ∃ t, d.subjects.template? s = some t ∧
        pass.MapsObjects (pass.matchObjects d.subjects.pairs ∅ none c.matched).2 s t m := by
  obtain ⟨d, hd, -⟩ := accepted
  obtain ⟨c⟩ := Pass.nonempty_course hd
  have hfinish := (Pass.finish_eq_ok_iff c.matchObjects).mpr ⟨c.succeeds, c.commit⟩
  exact ⟨d, c, c.reaches_matched,
    (Pass.mapsObjects_of_finish pass d.graph d.subjects c.matched c.reaches_matched).2 d hfinish⟩

end SkippedSubject

end GraphConformance.Conformance
