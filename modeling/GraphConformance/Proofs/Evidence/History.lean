import GraphConformance.Proofs.Evidence.Acyclic
import GraphConformance.Proofs.Expression.Reading

/-!
# Histories of a translator

What a translator answers depends on what it has translated before: a verdict that was found while
other pairs were in progress is kept as if it were final (`ProvisionalVerdict`). This is the only
way in which a history shows. Two memories that agree on the cyclic pairs that are met give the same
findings (`alike_translateWithin`), so a pair is answered as by a new translator when the pairs
that the history shares with it are acyclic (`toOption_translate_after`).
-/

set_option autoImplicit false

namespace GraphConformance

open Vocabulary Evidence

variable {k : Knowledge} {given : Term}

/-! ## Two memories side by side -/

namespace Evidence

/-- What an entry finds; nothing while the pair is in progress. -/
def Entry.finding? : Entry → Option Finding
  | inProgress => none
  | finished verdict => some verdict.toOption

/-- Two memories that agree on the pairs without a closed-world answer, those of `H` aside. -/
structure Memo.Alike (m m' : Memo) (r : Reasoner) (S : Finset (Expression × Term))
    (H : Set (Expression × Term)) : Prop where
  left : m.Faithful r S
  right : m'.Faithful r S
  known_eq : ∀ {p}, r.closedWorld p.1 p.2 = none → p ∉ H →
    (m.known p).map Entry.finding? = (m'.known p).map Entry.finding?

/-- While nothing of `H` is known to the first computation, both find the same and keep `P`. -/
def avoiding (P : Memo → Memo → Prop) (H : Set (Expression × Term)) : Simulation Recall Recall where
  Rel x y := Moves Memo.Grows x ∧ ∀ m m', P m m' → (∀ p ∈ H, (x m).2.known p = none) →
    (x m).1 = (y m').1 ∧ P (x m).2 (y m').2
  rel_pure a := ⟨Memo.Grows.refl, fun _ _ hP _ => ⟨rfl, hP⟩⟩
  rel_bind {α β x y f g} hx hf := by
    refine ⟨fun m => (hx.1 m).trans ((hf _).1 _), ?_⟩
    intro m m' hP hH
    have hfirst : ∀ p ∈ H, (x m).2.known p = none := by
      intro p hp
      by_contra hne
      exact ((hf (x m).1).1 (x m).2).known_ne_none hne (hH p hp)
    obtain ⟨hval, hP'⟩ := hx.2 m m' hP hfirst
    have hnext := (hf (x m).1).2 (x m).2 (y m').2 hP' hH
    rw [hval] at hnext
    rw [bind_apply, bind_apply, hval]
    exact hnext

theorem known_translateWithin_ne_none (r : Reasoner) (depth : Nat) (path : ClassPath)
    (e : Expression) (x : Term) (m : Memo) :
    (outcome (translateWithin r depth path e x) m).2.known (e, x) ≠ none := by
  obtain ⟨work, hwork, -⟩ := translateWithin_eq r depth path e x
  rw [hwork]
  cases hknown : m.known (e, x) with
  | none =>
    rw [outcome, memoised_of_none hknown, Memo.known_finish, if_pos rfl]
    simp
  | some entry =>
    have hgrows : m.Grows (outcome (memoised e x work) m).2 := by
      rw [← hwork]
      exact grows_translateWithin r depth path e x m
    rw [hgrows.kept hknown]
    simp

namespace Memo.Alike

variable {m m' : Memo} {r : Reasoner} {S : Finset (Expression × Term)}
  {H : Set (Expression × Term)}

theorem start (h : m.Alike m' r S H) (p : Expression × Term) :
    (m.start p).Alike (m'.start p) r (insert p S) H := by
  refine ⟨h.left.start p, h.right.start p, ?_⟩
  intro q hq hH
  rw [known_start, known_start]
  by_cases heq : q = p
  · rw [if_pos heq, if_pos heq]
  · rw [if_neg heq, if_neg heq]
    exact h.known_eq hq hH

theorem finish {e : Expression} {x : Term} {verdict verdict' : Verdict}
    (h : m.Alike m' r (insert (e, x) S) H) (hn : (e, x) ∉ S) (hnone : r.closedWorld e x = none)
    (hverdict : verdict.toOption = verdict'.toOption) :
    (m.finish e x verdict).Alike (m'.finish e x verdict') r S H := by
  have hvacuous : ∀ (v : Verdict) finding, r.closedWorld e x = some finding →
      v.toOption = finding := by
    intro v finding hfinding
    exact absurd (hnone.symm.trans hfinding) (by simp)
  refine ⟨h.left.finish hn (hvacuous _), h.right.finish hn (hvacuous _), ?_⟩
  intro q hq hH
  rw [known_finish, known_finish]
  by_cases heq : q = (e, x)
  · rw [if_pos heq, if_pos heq, Option.map_some, Option.map_some, Entry.finding?,
      Entry.finding?, hverdict]
  · rw [if_neg heq, if_neg heq]
    exact h.known_eq hq hH

theorem hit (h : m.Alike m' r S H) (hits cycles hits' cycles' : Nat) :
    Memo.Alike { m with hits := hits, cycles := cycles }
      { m' with hits := hits', cycles := cycles' } r S H :=
  ⟨h.left.hit _ _, h.right.hit _ _, h.known_eq⟩

end Memo.Alike

/-- From memories that are alike, translation finds the same and leaves them alike, unless the first
one meets a pair of `H`. -/
theorem alike_translateWithin (depth : Nat) (e : Expression) (x : Term) (path : ClassPath)
    {S : Finset (Expression × Term)} {H : Set (Expression × Term)}
    (hdepth : k.Suffices given S depth) (hx : x ∈ k.individuals given)
    (hS : ∀ p ∈ S, k.reasoner.closedWorld p.1 p.2 = none) {m m' : Memo}
    (hm : m.Alike m' k.reasoner S H)
    (hH : ∀ p ∈ H, (outcome (translateWithin k.reasoner depth path e x) m).2.known p = none) :
    (outcome (translateWithin k.reasoner depth path e x) m).1 =
        (outcome (translateWithin k.reasoner depth path e x) m').1 ∧
      (outcome (translateWithin k.reasoner depth path e x) m).2.Alike
        (outcome (translateWithin k.reasoner depth path e x) m').2 k.reasoner S H := by
  induction depth, e, x using translateWithin_induction k.reasoner generalizing path S m m' with
  | round depth e x hpart hdefinition =>
    cases hfound : k.reasoner.closedWorld e x with
    -- both memories follow closed-world evaluation
    | some finding =>
      have hleft := follows_closedWorld hfound path hdepth hx hS hm.left
      have hright := follows_closedWorld hfound path hdepth hx hS hm.right
      refine ⟨hleft.finding_eq.trans hright.finding_eq.symm, hleft.faithful, hright.faithful, ?_⟩
      intro p hp hpH
      rw [hleft.untouched.known_eq hp, hright.untouched.known_eq hp]
      exact hm.known_eq hp hpH
    | none =>
      have hnotH : (e, x) ∉ H := fun h =>
        known_translateWithin_ne_none k.reasoner depth path e x m (hH _ h)
      -- both memories know the same about the pair
      have hknown_eq := hm.known_eq hfound hnotH
      obtain ⟨work, hwork, hround⟩ := translateWithin_eq k.reasoner depth path e x
      rw [hwork] at hH ⊢
      cases hknown : m.known (e, x) with
      | some entry =>
        obtain ⟨entry', hknown', hentry⟩ : ∃ entry', m'.known (e, x) = some entry' ∧
            entry'.finding? = entry.finding? := by
          rw [hknown, Option.map_some] at hknown_eq
          exact Option.map_eq_some_iff.mp hknown_eq.symm
        rw [outcome, outcome]
        cases entry with
        | inProgress =>
          cases entry' with
          | inProgress =>
            rw [memoised_of_inProgress hknown, memoised_of_inProgress hknown']
            exact ⟨rfl, hm.hit _ _ _ _⟩
          | finished verdict' => exact absurd hentry (by simp [Entry.finding?])
        | finished verdict =>
          cases entry' with
          | inProgress => exact absurd hentry (by simp [Entry.finding?])
          | finished verdict' =>
            rw [memoised_of_finished hknown, memoised_of_finished hknown']
            exact ⟨(Option.some.inj hentry).symm, hm.hit _ _ _ _⟩
      | none =>
        have hknown' : m'.known (e, x) = none := by
          rw [hknown] at hknown_eq
          exact Option.map_eq_none_iff.mp hknown_eq.symm
        have hnot := hm.left.pending.not_mem hknown
        have hS' : ∀ p ∈ insert (e, x) S, k.reasoner.closedWorld p.1 p.2 = none := by
          intro p hp
          rcases Finset.mem_insert.mp hp with rfl | hp
          · exact hfound
          · exact hS p hp
        have hrel : (avoiding (fun m m' => m.Alike m' k.reasoner (insert (e, x) S) H) H).Rel
            (outcome work) (outcome work) := by
          rw [hround]
          apply Simulation.round
          · intro e' x' h
            refine ⟨grows_translateWithin _ _ _ _ _, ?_⟩
            intro n n' hn hnH
            exact hpart e' x' h path (hdepth.insert (e, x)) (k.mem_individuals_of_part h hx) hS'
              hn hnH
          · intro d h
            refine ⟨grows_unfoldWithin _ _ _ _ _, ?_⟩
            intro n n' hn hnH
            obtain ⟨below, rfl, hbelow⟩ := hdepth.unfold h hx hnot
            exact hdefinition below d rfl h (pathInside path e) hbelow hx hS' hn hnH
        -- what the whole translation does not meet, its round does not meet
        have hwithin : ∀ p ∈ H, (outcome work (m.start (e, x))).2.known p = none := by
          intro p hp
          have hne : p ≠ (e, x) := by
            rintro rfl
            exact hnotH hp
          have := hH p hp
          rw [outcome, memoised_of_none hknown, Memo.known_finish, if_neg hne] at this
          exact this
        obtain ⟨hval, halike⟩ := hrel.2 _ _ (hm.start (e, x)) hwithin
        rw [outcome, outcome, memoised_of_none hknown, memoised_of_none hknown']
        exact ⟨hval, halike.finish hnot hfound hval⟩

/-- Once translated, a pair that was not in progress is known with the verdict given. -/
theorem known_translateWithin (r : Reasoner) (depth : Nat) (path : ClassPath) (e : Expression)
    (x : Term) {m : Memo} (h : m.known (e, x) ≠ some .inProgress) :
    (translateWithin r depth path e x m).2.known (e, x) =
      some (.finished (translateWithin r depth path e x m).1) := by
  obtain ⟨work, hwork, -⟩ := translateWithin_eq r depth path e x
  rw [hwork]
  cases hknown : m.known (e, x) with
  | none => rw [memoised_of_none hknown, Memo.known_finish, if_pos rfl]
  | some entry =>
    cases entry with
    | inProgress => exact absurd hknown h
    | finished verdict =>
      rw [memoised_of_finished hknown]
      exact hknown

/-- A pair that is known with a verdict is answered by it. -/
theorem translateWithin_of_known (r : Reasoner) (depth : Nat) (path : ClassPath) (e : Expression)
    (x : Term) {m : Memo} {verdict : Verdict} (h : m.known (e, x) = some (.finished verdict)) :
    (translateWithin r depth path e x m).1 = verdict := by
  obtain ⟨work, hwork, -⟩ := translateWithin_eq r depth path e x
  rw [hwork, memoised_of_finished h]

end Evidence

/-! ## Calls one after another -/

namespace Translator

/-- The translator after some more calls. -/
def run (τ : Translator) (r : Reasoner) (calls : List (Expression × Term)) : Translator :=
  calls.foldl (fun τ p => (τ.translate r p.1 p.2).2) τ

/-- A new translator after some calls. -/
def after (r : Reasoner) (calls : List (Expression × Term)) : Translator := new.run r calls

/-- The translator has met a pair. -/
def Knows (τ : Translator) (p : Expression × Term) : Prop := τ.memo.known p ≠ none

theorem run_append (τ : Translator) (r : Reasoner) (calls more : List (Expression × Term)) :
    τ.run r (calls ++ more) = (τ.run r calls).run r more :=
  List.foldl_append

theorem grows_run (τ : Translator) (r : Reasoner) (calls : List (Expression × Term)) :
    τ.memo.Grows (τ.run r calls).memo := by
  induction calls generalizing τ with
  | nil => exact Memo.Grows.refl _
  | cons p calls ih =>
    have hfirst : τ.memo.Grows (τ.translate r p.1 p.2).2.memo :=
      grows_translateWithin r r.definedPairs τ.path p.1 p.2 τ.memo
    exact hfirst.trans (ih (τ.translate r p.1 p.2).2)

theorem path_run (τ : Translator) (r : Reasoner) (calls : List (Expression × Term)) :
    (τ.run r calls).path = τ.path := by
  induction calls generalizing τ with
  | nil => rfl
  | cons p calls ih => exact ih (τ.translate r p.1 p.2).2

/-- The memory of a new translator. -/
theorem faithful_new (r : Reasoner) : new.memo.Faithful r ∅ := Memo.Keeps.empty

/-- Each call keeps what closed-world evaluation confirms. -/
theorem faithful_translate {τ : Translator} (h : τ.memo.Faithful k.reasoner ∅) (e : Expression)
    (x : Term) : (τ.translate k.reasoner e x).2.memo.Faithful k.reasoner ∅ := by
  -- a faithful memory is alike to itself
  have hsame : τ.memo.Alike τ.memo k.reasoner ∅ ∅ := ⟨h, h, fun _ _ => rfl⟩
  have := alike_translateWithin k.reasoner.definedPairs e x τ.path (k.suffices_start x)
    List.mem_cons_self (by simp) hsame (by simp)
  exact this.2.left

/-- So does every history. -/
theorem faithful_run {τ : Translator} (h : τ.memo.Faithful k.reasoner ∅)
    (calls : List (Expression × Term)) : (τ.run k.reasoner calls).memo.Faithful k.reasoner ∅ := by
  induction calls generalizing τ with
  | nil => exact h
  | cons p calls ih => exact ih (faithful_translate h p.1 p.2)

end Translator

/-! ## Acyclic pairs -/

namespace Knowledge

/-- A pair that a new translator translates without meeting a pair in progress. -/
def Acyclic (k : Knowledge) (p : Expression × Term) : Prop :=
  (Translator.new.translate k.reasoner p.1 p.2).2.memo.cycles = 0

/-- The acyclic pairs are those with a closed-world answer. -/
theorem acyclic_iff {p : Expression × Term} :
    k.Acyclic p ↔ ∃ finding, k.reasoner.closedWorld p.1 p.2 = some finding := by
  constructor
  · intro h
    have := closedWorld_of_cycles_le k.reasoner.definedPairs p.1 p.2 .empty (k.suffices_start p.2)
      List.mem_cons_self Memo.Keeps.empty (Nat.le_of_eq h)
    exact ⟨_, this.1⟩
  · rintro ⟨finding, h⟩
    have := follows_closedWorld h .empty (k.suffices_start p.2) List.mem_cons_self (by simp)
      (Translator.faithful_new k.reasoner)
    exact this.untouched.cycles_eq

/-- Every pair that is met on the way to an acyclic pair is acyclic. -/
theorem Acyclic.of_knows {p q : Expression × Term} (h : k.Acyclic p)
    (hq : (Translator.new.translate k.reasoner p.1 p.2).2.Knows q) : k.Acyclic q := by
  obtain ⟨-, hsettled⟩ := closedWorld_of_cycles_le k.reasoner.definedPairs p.1 p.2 .empty
    (k.suffices_start p.2) List.mem_cons_self Memo.Keeps.empty (Nat.le_of_eq h)
  obtain ⟨entry, hentry⟩ := Option.ne_none_iff_exists'.mp hq
  cases entry with
  | inProgress => exact absurd ((hsettled.pending q).mp hentry) (by simp)
  | finished verdict => exact acyclic_iff.mpr ⟨_, hsettled.verdict hentry⟩

end Knowledge

/-! ## Histories -/

theorem toOption_translate_of_shared (calls : List (Expression × Term)) (e : Expression)
    (x : Term)
    (h : ∀ p, (Translator.after k.reasoner calls).Knows p →
      (Translator.new.translate k.reasoner e x).2.Knows p → k.Acyclic p) :
    (Translator.new.translate k.reasoner e x).1.toOption =
      ((Translator.after k.reasoner calls).translate k.reasoner e x).1.toOption := by
  have hpath : (Translator.after k.reasoner calls).path = .empty := Translator.path_run _ _ _
  -- the pairs of the history that the two memories need not agree on
  let H : Set (Expression × Term) :=
    {p | k.reasoner.closedWorld p.1 p.2 = none ∧ (Translator.after k.reasoner calls).Knows p}
  have halike : Translator.new.memo.Alike (Translator.after k.reasoner calls).memo k.reasoner ∅
      H := by
    refine ⟨Translator.faithful_new _, Translator.faithful_run (Translator.faithful_new _) calls,
      ?_⟩
    intro p hp hH
    have hunknown : (Translator.after k.reasoner calls).memo.known p = none := by
      by_contra hne
      exact hH ⟨hp, hne⟩
    rw [hunknown]
    rfl
  have havoid : ∀ p ∈ H, (Translator.new.translate k.reasoner e x).2.memo.known p = none := by
    rintro p ⟨hnone, hknows⟩
    by_contra hne
    obtain ⟨finding, hfinding⟩ := Knowledge.acyclic_iff.mp (h p hknows hne)
    exact absurd (hnone.symm.trans hfinding) (by simp)
  have hresult := alike_translateWithin k.reasoner.definedPairs e x .empty (k.suffices_start x)
    List.mem_cons_self (by simp) halike havoid
  rw [Translator.translate, Translator.translate, hpath]
  exact hresult.1

/-- A pair that was once translated is answered with the same verdict ever after. -/
theorem translate_run_of_translate {τ : Translator} {r : Reasoner} {e : Expression} {x : Term}
    (h : τ.memo.known (e, x) ≠ some .inProgress) (later : List (Expression × Term)) :
    (((τ.translate r e x).2.run r later).translate r e x).1 = (τ.translate r e x).1 := by
  have hknown := known_translateWithin r r.definedPairs τ.path e x h
  have hkept := ((τ.translate r e x).2.grows_run r later).kept hknown
  exact translateWithin_of_known r r.definedPairs _ e x hkept

/-- A pair is answered as by a new translator, at once and ever after, if it is acyclic or if all
pairs are that the history left and a new translator meets as well. -/
theorem toOption_translate_after (k : Knowledge) (calls : List (Expression × Term))
    (e : Expression) (x : Term)
    (h : k.Acyclic (e, x) ∨ ∀ p, (Translator.after k.reasoner calls).Knows p →
      (Translator.new.translate k.reasoner e x).2.Knows p → k.Acyclic p)
    (later : List (Expression × Term)) :
    ((Translator.after k.reasoner calls).translate k.reasoner e x).1.toOption =
        (Translator.new.translate k.reasoner e x).1.toOption ∧
      ((Translator.after k.reasoner (calls ++ (e, x) :: later)).translate
          k.reasoner e x).1.toOption =
        (Translator.new.translate k.reasoner e x).1.toOption := by
  have hshared : ∀ p, (Translator.after k.reasoner calls).Knows p →
      (Translator.new.translate k.reasoner e x).2.Knows p → k.Acyclic p := by
    rcases h with h | h
    · exact fun p _ hp => h.of_knows hp
    · exact h
  have hfirst := toOption_translate_of_shared calls e x hshared
  refine ⟨hfirst.symm, ?_⟩
  have hpending := (Translator.faithful_run (Translator.faithful_new k.reasoner) calls).pending
  have hidle : (Translator.after k.reasoner calls).memo.known (e, x) ≠ some .inProgress := by
    intro hm
    exact absurd ((hpending (e, x)).mp hm) (by simp)
  have hagain := translate_run_of_translate (r := k.reasoner) hidle later
  rw [Translator.after, Translator.run_append]
  rw [hfirst]
  exact congrArg Except.toOption hagain

/-! ### A verdict found while another pair is in progress

A is equivalent to B and to C, and every C is a D. Nothing is asserted of z but an edge, so it is no
D and none of the others. Asked about A first, a translator meets B while A is in progress and keeps
that z is a B; a new translator finds that it is not. -/

namespace ProvisionalVerdict

def triples : List Triple :=
  [⟨.iri ⟨"A"⟩, .iri Owl.equivalentClass, .iri ⟨"B"⟩⟩,
    ⟨.iri ⟨"A"⟩, .iri Owl.equivalentClass, .iri ⟨"C"⟩⟩,
    ⟨.iri ⟨"C"⟩, .iri Rdfs.subClassOf, .iri ⟨"D"⟩⟩,
    ⟨.iri ⟨"z"⟩, .iri ⟨"q"⟩, .iri ⟨"y"⟩⟩]

def knowledge : Knowledge := ⟨.ofList triples, 2⟩

/-- The pair of a class and z. -/
def isA (name : String) : Expression × Term := (.concept (.iri ⟨name⟩), .iri ⟨"z"⟩)

theorem reasoner_eq : knowledge.reasoner = knowledge.byName := by
  have htriples : knowledge.store.triples = triples := by
    rw [knowledge, Store.ofList, Store.triples_insertAll]
    decide
  apply Knowledge.reasoner_eq_byName
  rw [htriples]
  decide

/-- Whether a translator succeeds depends on its history. -/
theorem not_forall_isSome_translate_after :
    ¬ ∀ (k : Knowledge) (calls : List (Expression × Term)) (e : Expression) (x : Term),
      ((Translator.after k.reasoner calls).translate k.reasoner e x).1.toOption.isSome =
        (Translator.new.translate k.reasoner e x).1.toOption.isSome := by
  intro h
  have hB := h knowledge [isA "A"] (isA "B").1 (isA "B").2
  rw [reasoner_eq] at hB
  have hafter : ((Translator.after knowledge.byName [isA "A"]).translate knowledge.byName
      (isA "B").1 (isA "B").2).1.toOption = some [] := by decide +kernel
  have hnew : (Translator.new.translate knowledge.byName (isA "B").1
      (isA "B").2).1.toOption = none := by decide +kernel
  rw [hafter, hnew] at hB
  exact absurd hB (by simp)

theorem mem_keys_of_knows {τ : Translator} {p : Expression × Term} (h : τ.Knows p) :
    p ∈ τ.memo.entries.keys := by
  by_contra hn
  exact h (Table.lookupEntry_eq_none hn)

theorem acyclic_of_mem {p : Expression × Term} (h : p ∈ [isA "C", isA "D"]) :
    knowledge.Acyclic p := by
  rw [Knowledge.Acyclic, reasoner_eq]
  rcases List.mem_cons.mp h with rfl | h
  · decide +kernel
  · obtain rfl := List.mem_singleton.mp h
    decide +kernel

/-- A is cyclic, but what a history that asked for C shares with it is not. -/
theorem toOption_translate_after_C :
    ¬ knowledge.Acyclic (isA "A") ∧
      (∀ p, (Translator.after knowledge.reasoner [isA "C"]).Knows p →
        (Translator.new.translate knowledge.reasoner (isA "A").1 (isA "A").2).2.Knows p →
          knowledge.Acyclic p) ∧
      ((Translator.after knowledge.reasoner [isA "C"]).translate knowledge.reasoner (isA "A").1
          (isA "A").2).1.toOption =
        (Translator.new.translate knowledge.reasoner (isA "A").1 (isA "A").2).1.toOption := by
  have hshared : ∀ p, (Translator.after knowledge.reasoner [isA "C"]).Knows p →
      (Translator.new.translate knowledge.reasoner (isA "A").1 (isA "A").2).2.Knows p →
        knowledge.Acyclic p := by
    intro p hp _
    have hkeys : (Translator.after knowledge.reasoner [isA "C"]).memo.entries.keys =
        [isA "C", isA "D"] := by
      rw [reasoner_eq]
      decide +kernel
    have hmem := mem_keys_of_knows hp
    rw [hkeys] at hmem
    exact acyclic_of_mem hmem
  refine ⟨?_, hshared, ?_⟩
  · rw [Knowledge.Acyclic, reasoner_eq]
    decide +kernel
  · exact (toOption_translate_after knowledge [isA "C"] (isA "A").1 (isA "A").2 (Or.inr hshared)
      []).1

end ProvisionalVerdict

end GraphConformance
