import GraphConformance.Proofs.Evidence.Origin
import Mathlib.Logic.Relation

/-!
# What failures tell

`Reasoner.Describes` says which failures an expression and an individual can have, form by form,
with all that the failure tells: the bound and the count of a violated restriction, the failure that
is kept as its cause, and one failure for each branch of a union, in order. A failure inside another
one describes the part or the value at which it was found.

Failures come from the memory as well, so the argument is one about computations with a memory.
`Evidence.Tells` says that a computation started with a truthful memory gives what it should and
leaves such a memory. There is one lemma for each way to combine work, one for each rule, and then
translation as a whole (`tells_translateWithin`). Each memory that occurs is truthful, and so is
each failure that is translated with it (`describes_of_translate_error`).
-/

set_option autoImplicit false

namespace GraphConformance

open Vocabulary Evidence

/-! ## Failures and what they hold -/

namespace Failure

/-- The failures that a failure holds: the cause of a violated restriction, and the branches of an
exhausted union. -/
def parts (f : Failure) : List Failure :=
  match f.kind with
  | .restrictionViolation _ _ _ _ cause => cause.toList
  | .unionExhausted branches => branches
  | _ => []

/-- The second failure is inside the first one, however deep. -/
def Contains : Failure → Failure → Prop := Relation.TransGen fun f g => g ∈ f.parts

/-- The failure is that of a membership of the individual, and is of the kind. -/
structure IsOf (f : Failure) (x : Term) (kind : FailureKind Failure) : Prop where
  stage : f.stage = .restriction
  individual : f.individual = some x
  kind : f.kind = kind

theorem isOf_failure (path : ClassPath) (x : Term) (kind : FailureKind Failure)
    (explanation : String) : (path.failure kind x explanation).IsOf x kind :=
  ⟨rfl, rfl, rfl⟩

end Failure

/-- Verdicts on the values, asked for one after the other with a memory that occurs. -/
def Reasoner.Judges (r : Reasoner) (e : Expression) (vs : List Term) (verdicts : List Verdict) :
    Prop :=
  ∃ depth path m, Memo.Reached r m ∧ (each (vs.map (translateWithin r depth path e)) m).1 = verdicts

/-- The failures of the membership of an individual in an expression. -/
inductive Reasoner.Describes (r : Reasoner) : Expression → Term → Failure → Prop where
  | bottom {x : Term} {f : Failure} (h : f.IsOf x .unsatisfiable) : Describes r .bottom x f
  | notMember {c x : Term} {f : Failure} (h : f.IsOf x .notAMember) : Describes r (.concept c) x f
  | complement {part : Expression} {x : Term} {f : Failure} (h : f.IsOf x .complementViolation) :
      Describes r (.compl part) x f
  -- the reasoner does not answer about the individual
  | refused {e : Expression} {x : Term} {f : Failure} {error : Knowledge.QueryError}
      (hx : x.isIndividual = true)
      (herror : r.types x = .error error ∨ r.edges x = .error error)
      (h : f.IsOf x (Failure.ofQueryError .restriction error).kind) : Describes r e x f
  -- the failure of an intersection is that of a part, and a class may fail by a definition
  | part {e : Expression} {parts : List Expression} {x : Term} {f : Failure} (he : e ∈ parts)
      (h : Describes r e x f) : Describes r (.conj parts) x f
  | definition {c x : Term} {d : Expression} {f : Failure} (hd : r.Definition (.concept c) d)
      (h : Describes r d x f) : Describes r (.concept c) x f
  -- each branch has a failure, and these stand in the order of the branches
  | union {branches : List Expression} {causes : List Failure} {x : Term} {f : Failure}
      (hlength : causes.length = branches.length)
      (hcauses : ∀ i (hb : i < branches.length) (hc : i < causes.length),
        Describes r branches[i] x causes[i])
      (h : f.IsOf x (.unionExhausted causes)) : Describes r (.disj branches) x f
  -- too few values, which are counted
  | atLeast {p x : Term} {n : Nat} {vs : List Term} {f : Failure} (hvs : r.values? p x = some vs)
      (hn : vs.length < n)
      (h : f.IsOf x (.restrictionViolation .minCardinality p n vs.length none)) :
      Describes r (.atLeast p n) x f
  -- only a bound of zero is exceeded
  | atMost {p x : Term} {vs : List Term} {f : Failure} (hvs : r.values? p x = some vs)
      (hn : 0 < vs.length)
      (h : f.IsOf x (.restrictionViolation .maxCardinality p 0 vs.length none)) :
      Describes r (.atMost p 0) x f
  | exactlyFew {p x : Term} {n : Nat} {vs : List Term} {f : Failure}
      (hvs : r.values? p x = some vs) (hn : vs.length < n)
      (h : f.IsOf x (.restrictionViolation .exactCardinality p n vs.length none)) :
      Describes r (.exactly p n) x f
  | exactlyNone {p x : Term} {vs : List Term} {f : Failure} (hvs : r.values? p x = some vs)
      (hn : 0 < vs.length)
      (h : f.IsOf x (.restrictionViolation .exactCardinality p 0 vs.length none)) :
      Describes r (.exactly p 0) x f
  | selfOf {p x : Term} {vs : List Term} {f : Failure} (hvs : r.values? p x = some vs)
      (hx : x ∉ vs) (h : f.IsOf x (.restrictionViolation .hasSelf p 1 0 none)) :
      Describes r (.selfOf p) x f
  -- without values there is no cause
  | noValue {p x : Term} {filler : Expression} {f : Failure} (hvs : r.values? p x = some [])
      (h : f.IsOf x (.restrictionViolation .someValuesFrom p 1 0 none)) :
      Describes r (.someOf p filler) x f
  -- with values, the cause is the failure of the last one
  | noneOf {p x v : Term} {filler : Expression} {vs : List Term} {f cause : Failure}
      (hvs : r.values? p x = some vs) (hlast : vs.getLast? = some v)
      (hcause : Describes r filler v cause)
      (h : f.IsOf x (.restrictionViolation .someValuesFrom p 1 0 (some cause))) :
      Describes r (.someOf p filler) x f
  -- the values that belong to the filler are counted, and the first other one gives the cause
  | onlyOf {p x v : Term} {filler : Expression} {vs : List Term} {verdicts : List Verdict}
      {i observed : Nat} {f cause : Failure}
      (hvs : r.values? p x = some vs) (hverdicts : r.Judges filler vs verdicts)
      (hv : vs[i]? = some v) (hfails : verdicts[i]? = some (.error cause))
      (hearlier : ∀ verdict ∈ verdicts.take i, verdict.isOk = true)
      (hcause : Describes r filler v cause)
      (hobserved : observed = verdicts.countP Except.isOk) (hn : observed < vs.length)
      (h : f.IsOf x (.restrictionViolation .allValuesFrom p vs.length observed (some cause))) :
      Describes r (.onlyOf p filler) x f

/-- What is inside a failure describes something itself. -/
theorem Reasoner.Describes.exists_of_mem_parts {r : Reasoner} {e : Expression} {x : Term}
    {f g : Failure} (h : r.Describes e x f) (hg : g ∈ f.parts) :
    ∃ e' x', r.Describes e' x' g := by
  induction h with
  | part _ _ ih => exact ih hg
  | definition _ _ ih => exact ih hg
  | @union branches causes x f hlength hcauses h ih =>
    rw [Failure.parts, h.kind] at hg
    obtain ⟨i, hi, rfl⟩ := List.mem_iff_getElem.mp hg
    exact ⟨_, x, hcauses i (hlength ▸ hi) hi⟩
  | @noneOf p x v filler vs f cause _ _ hcause h ih =>
    rw [Failure.parts, h.kind] at hg
    obtain rfl : g = cause := by simpa using hg
    exact ⟨filler, v, hcause⟩
  | @onlyOf p x v filler vs verdicts i observed f cause _ _ _ _ _ hcause _ _ h ih =>
    rw [Failure.parts, h.kind] at hg
    obtain rfl : g = cause := by simpa using hg
    exact ⟨filler, v, hcause⟩
  | @refused e x f error _ _ h =>
    rw [Failure.parts, h.kind] at hg
    cases error <;> exact absurd hg (by simp [Failure.ofQueryError, Failure.plain])
  | bottom h => exact absurd hg (by simp [Failure.parts, h.kind])
  | notMember h => exact absurd hg (by simp [Failure.parts, h.kind])
  | complement h => exact absurd hg (by simp [Failure.parts, h.kind])
  | atLeast _ _ h => exact absurd hg (by simp [Failure.parts, h.kind])
  | atMost _ _ h => exact absurd hg (by simp [Failure.parts, h.kind])
  | exactlyFew _ _ h => exact absurd hg (by simp [Failure.parts, h.kind])
  | exactlyNone _ _ h => exact absurd hg (by simp [Failure.parts, h.kind])
  | selfOf _ _ h => exact absurd hg (by simp [Failure.parts, h.kind])
  | noValue _ h => exact absurd hg (by simp [Failure.parts, h.kind])

theorem Reasoner.Describes.exists_of_contains {r : Reasoner} {e : Expression} {x : Term}
    {f g : Failure} (h : r.Describes e x f) (hg : f.Contains g) :
    ∃ e' x', r.Describes e' x' g := by
  induction hg with
  | single hg => exact h.exists_of_mem_parts hg
  | tail _ hg ih =>
    obtain ⟨e', x', h'⟩ := ih
    exact h'.exists_of_mem_parts hg

namespace Evidence

/-! ## Lists of verdicts -/

section Verdicts

variable {verdicts : List Verdict}

theorem length_failures_add (verdicts : List Verdict) :
    (failures verdicts).length + verdicts.countP Except.isOk = verdicts.length := by
  induction verdicts with
  | nil => rfl
  | cons verdict verdicts ih =>
    cases verdict with
    | error failure =>
      rw [failures_cons_error, List.countP_cons_of_neg (by simp [Except.isOk, Except.toBool])]
      simp only [List.length_cons]
      omega
    | ok found =>
      rw [failures_cons_ok, List.countP_cons_of_pos (by simp [Except.isOk, Except.toBool])]
      simp only [List.length_cons]
      omega

/-- With as many failures as verdicts, there is nothing else. -/
theorem eq_map_failures (h : ¬(failures verdicts).length < verdicts.length) :
    verdicts = (failures verdicts).map .error := by
  induction verdicts with
  | nil => rfl
  | cons verdict verdicts ih =>
    cases verdict with
    | error failure =>
      rw [failures_cons_error, List.length_cons, List.length_cons] at h
      rw [failures_cons_error, List.map_cons, ← ih (by omega)]
    | ok found =>
      have := length_failures_le verdicts
      rw [failures_cons_ok, List.length_cons] at h
      omega

/-- The first of the failures is that of a verdict before which there is no failure. -/
theorem exists_first_of_failures {cause : Failure} {rest : List Failure}
    (h : failures verdicts = cause :: rest) :
    ∃ i, verdicts[i]? = some (.error cause) ∧ ∀ verdict ∈ verdicts.take i, verdict.isOk = true := by
  induction verdicts with
  | nil => exact absurd h (by simp [failures])
  | cons verdict verdicts ih =>
    cases verdict with
    | error failure =>
      rw [failures_cons_error] at h
      obtain ⟨rfl, -⟩ := List.cons.inj h
      exact ⟨0, rfl, by simp⟩
    | ok found =>
      rw [failures_cons_ok] at h
      obtain ⟨i, hi, hearlier⟩ := ih h
      refine ⟨i + 1, hi, ?_⟩
      rw [List.take_succ_cons, List.forall_mem_cons]
      exact ⟨rfl, hearlier⟩

end Verdicts

/-! ## Truthful memories -/

/-- If the verdict is a failure, then one of these. -/
def Verdict.Blames (Q : Failure → Prop) (verdict : Verdict) : Prop :=
  ∀ f, verdict = .error f → Q f

theorem Verdict.blames_ok {Q : Failure → Prop} (statements : List Triple) :
    Verdict.Blames Q (.ok statements) :=
  fun _ h => absurd h (by simp)

theorem Verdict.blames_error {Q : Failure → Prop} {f : Failure} (h : Q f) :
    Verdict.Blames Q (.error f) := by
  intro g heq
  rw [← Except.error.inj heq]
  exact h

/-- Each failure that is kept describes its pair. -/
def Memo.Honest (m : Memo) (r : Reasoner) : Prop :=
  ∀ e x verdict, m.known (e, x) = some (.finished verdict) →
    Verdict.Blames (r.Describes e x) verdict

/-- The memory occurs, and each failure in it describes its pair. -/
structure Memo.Truthful (m : Memo) (r : Reasoner) : Prop where
  reached : m.Reached r
  honest : m.Honest r

/-- Started with a truthful memory, the computation gives what it should and leaves such a
memory. -/
def Tells {α : Type} (r : Reasoner) (P : α → Prop) (work : Memo → α × Memo) : Prop :=
  ∀ m : Memo, m.Truthful r → P (work m).1 ∧ (work m).2.Truthful r

section Memory

variable {r : Reasoner} {m : Memo} {e : Expression} {x : Term}

theorem Memo.honest_empty (r : Reasoner) : Memo.empty.Honest r := by
  intro e x verdict h
  rw [known_empty] at h
  exact absurd h (by simp)

theorem Memo.Honest.start (h : m.Honest r) (p : Expression × Term) : (m.start p).Honest r := by
  intro e x verdict hq
  rw [known_start] at hq
  by_cases heq : (e, x) = p
  · rw [if_pos heq] at hq
    exact absurd hq (by simp)
  · rw [if_neg heq] at hq
    exact h e x verdict hq

theorem Memo.Honest.finish {verdict : Verdict} (h : m.Honest r)
    (hverdict : Verdict.Blames (r.Describes e x) verdict) : (m.finish e x verdict).Honest r := by
  intro e' x' other hq
  rw [known_finish] at hq
  by_cases heq : (e', x') = (e, x)
  · obtain ⟨rfl, rfl⟩ := Prod.mk.inj heq
    rw [if_pos rfl] at hq
    obtain rfl := Entry.finished.inj (Option.some.inj hq)
    exact hverdict
  · rw [if_neg heq] at hq
    exact h e' x' other hq

/-- A look-up describes its pair when its work does. -/
theorem describes_memoised {work : Work} (hm : m.Truthful r)
    (h : Tells r (Verdict.Blames (r.Describes e x)) work) :
    Verdict.Blames (r.Describes e x) (memoised e x work m).1 ∧
      (memoised e x work m).2.Honest r := by
  cases hknown : m.known (e, x) with
  | none =>
    rw [memoised_of_none hknown]
    have hstart : (m.start (e, x)).Truthful r :=
      ⟨hm.reached.start hknown, hm.honest.start (e, x)⟩
    obtain ⟨hverdict, hworked⟩ := h (m.start (e, x)) hstart
    exact ⟨hverdict, hworked.honest.finish hverdict⟩
  | some entry =>
    cases entry with
    | inProgress =>
      rw [memoised_of_inProgress hknown]
      exact ⟨Verdict.blames_ok [], hm.honest⟩
    | finished verdict =>
      rw [memoised_of_finished hknown]
      exact ⟨hm.honest e x verdict hknown, hm.honest⟩

end Memory

/-! ## Combinations of work -/

section Work

variable {r : Reasoner} {Q : Failure → Prop} {ι : Type}

theorem tells_done {verdict : Verdict} (h : Verdict.Blames Q verdict) :
    Tells r (Verdict.Blames Q) (done verdict) :=
  fun _ hm => ⟨h, hm⟩

theorem tells_every {works : List Work} (h : ∀ work ∈ works, Tells r (Verdict.Blames Q) work) :
    Tells r (Verdict.Blames Q) (every works) := by
  induction works with
  | nil => exact fun m hm => ⟨Verdict.blames_ok [], hm⟩
  | cons work works ih =>
    intro m hm
    obtain ⟨hfirst, hm'⟩ := h work List.mem_cons_self m hm
    obtain ⟨hrest, hm''⟩ := ih (fun other ho => h other (List.mem_cons_of_mem _ ho)) _ hm'
    rw [every]
    split
    · rename_i failure m' heq
      rw [heq] at hfirst hm'
      exact ⟨Verdict.blames_error (hfirst failure rfl), hm'⟩
    · rename_i found m' heq
      rw [heq] at hrest hm''
      split
      · rename_i failure m'' heq'
        rw [heq'] at hrest hm''
        exact ⟨Verdict.blames_error (hrest failure rfl), hm''⟩
      · rename_i more m'' heq'
        rw [heq'] at hm''
        exact ⟨Verdict.blames_ok _, hm''⟩

/-- The verdicts stand in the order of what they are about. -/
theorem tells_each {is : List ι} {work : ι → Work} {Q : ι → Failure → Prop}
    (h : ∀ i ∈ is, Tells r (Verdict.Blames (Q i)) (work i)) :
    Tells r (List.Forall₂ (fun i verdict => Verdict.Blames (Q i) verdict) is)
      (each (is.map work)) := by
  induction is with
  | nil => exact fun m hm => ⟨.nil, hm⟩
  | cons i is ih =>
    intro m hm
    obtain ⟨hfirst, hm'⟩ := h i List.mem_cons_self m hm
    obtain ⟨hrest, hm''⟩ := ih (fun j hj => h j (List.mem_cons_of_mem _ hj)) _ hm'
    exact ⟨.cons hfirst hrest, hm''⟩

/-- Without a member among the values, the failure of the last value is kept. -/
theorem tells_firstMember {work : Term → Work} {vs : List Term} {Q : Term → Failure → Prop}
    (h : ∀ v ∈ vs, Tells r (Verdict.Blames (Q v)) (work v)) (failure : Option Failure) :
    Tells r (fun result => ∀ cause, result = .error cause →
        (vs = [] ∧ cause = failure) ∨ ∃ v f, vs.getLast? = some v ∧ cause = some f ∧ Q v f)
      (firstMember work vs failure) := by
  induction vs generalizing failure with
  | nil =>
    intro m hm
    exact ⟨fun cause hcause => Or.inl ⟨rfl, (Except.error.inj hcause).symm⟩, hm⟩
  | cons v vs ih =>
    intro m hm
    obtain ⟨hfirst, hm'⟩ := h v List.mem_cons_self m hm
    rw [firstMember]
    split
    · rename_i found m' heq
      rw [heq] at hm'
      exact ⟨fun cause hcause => absurd hcause (by simp), hm'⟩
    · rename_i last m' heq
      rw [heq] at hfirst hm'
      obtain ⟨hlast, hm''⟩ :=
        ih (fun w hw => h w (List.mem_cons_of_mem _ hw)) (some last) m' hm'
      refine ⟨?_, hm''⟩
      intro cause hcause
      rcases hlast cause hcause with ⟨rfl, rfl⟩ | ⟨w, f, hw, rfl, hf⟩
      · exact Or.inr ⟨v, last, rfl, rfl, hfirst last rfl⟩
      · exact Or.inr ⟨w, f, by rw [List.getLast?_cons, hw]; rfl, rfl, hf⟩

end Work

/-! ## Rules -/

section Rules

variable {r : Reasoner} {path : ClassPath} {p x : Term} {vs : List Term}

theorem describes_of_edges {e : Expression} {f : Failure} (hx : x.isIndividual = true)
    (h : (match r.edges x with
      | .ok edges => .ok ((edges.filter (·.1 = p)).map Prod.snd)
      | .error e => .error (path.queryFailure e x)) = (.error f : Except Failure (List Term))) :
    r.Describes e x f := by
  cases hedges : r.edges x with
  | ok edges =>
    rw [hedges] at h
    exact absurd h (by simp)
  | error error =>
    rw [hedges] at h
    rw [← Except.error.inj h]
    exact .refused hx (Or.inr hedges) (Failure.isOf_failure path x _ _)

theorem describes_of_values {e : Expression} {f : Failure} (h : values r path p x = .error f) :
    r.Describes e x f := by
  cases x with
  | literal l => exact absurd h (by simp [values])
  | iri i => exact describes_of_edges rfl h
  | blank b => exact describes_of_edges rfl h

theorem tells_onValues {e : Expression} {work : List Term → Work}
    (h : ∀ vs, r.values? p x = some vs → Tells r (Verdict.Blames (r.Describes e x)) (work vs)) :
    Tells r (Verdict.Blames (r.Describes e x)) (onValues r path p x work) := by
  intro m hm
  rw [onValues]
  split
  · rename_i vs hvs
    refine h vs ?_ m hm
    rw [← values_toOption r path, hvs]
    rfl
  · rename_i failure hvalues
    exact ⟨Verdict.blames_error (describes_of_values hvalues), hm⟩

theorem tells_checkSome {work : Term → Work} {filler : Expression}
    (hvs : r.values? p x = some vs)
    (h : ∀ v ∈ vs, Tells r (Verdict.Blames (r.Describes filler v)) (work v)) :
    Tells r (Verdict.Blames (r.Describes (.someOf p filler) x))
      (checkSome path work p filler x vs) := by
  intro m hm
  obtain ⟨hlast, hm'⟩ := tells_firstMember h none m hm
  rw [checkSome]
  split
  · rename_i v found m' heq
    rw [heq] at hm'
    exact ⟨Verdict.blames_ok _, hm'⟩
  · rename_i cause m' heq
    rw [heq] at hlast hm'
    refine ⟨Verdict.blames_error ?_, hm'⟩
    rcases hlast cause rfl with ⟨rfl, rfl⟩ | ⟨v, f, hv, rfl, hf⟩
    · exact .noValue hvs (Failure.isOf_failure path x _ _)
    · exact .noneOf hvs hv hf (Failure.isOf_failure path x _ _)

/-- The verdicts that are counted are those of this memory. -/
theorem tells_checkOnly {depth : Nat} {filler : Expression} (hvs : r.values? p x = some vs)
    (h : ∀ v ∈ vs, Tells r (Verdict.Blames (r.Describes filler v))
      (translateWithin r depth path filler v)) :
    Tells r (Verdict.Blames (r.Describes (.onlyOf p filler) x))
      (checkOnly path (translateWithin r depth path filler) p filler x vs) := by
  intro m hm
  obtain ⟨hverdicts, hm'⟩ := tells_each h m hm
  have hjudges : r.Judges filler vs (each (vs.map (translateWithin r depth path filler)) m).1 :=
    ⟨depth, path, m, hm.reached, rfl⟩
  rw [checkOnly]
  dsimp only
  -- from here on only the verdicts count, not how they were found
  revert hverdicts hjudges
  generalize (each (vs.map (translateWithin r depth path filler)) m).1 = verdicts
  intro hverdicts hjudges
  split
  · exact ⟨Verdict.blames_ok _, hm'⟩
  · rename_i cause rest heq
    refine ⟨Verdict.blames_error ?_, hm'⟩
    obtain ⟨i, hfails, hearlier⟩ := exists_first_of_failures heq
    have hlength := hverdicts.length_eq
    have hcount := length_failures_add verdicts
    rw [heq, List.length_cons, ← hlength] at hcount
    obtain ⟨hi, hfails'⟩ := List.getElem?_eq_some_iff.mp hfails
    have hi' : i < vs.length := hlength ▸ hi
    have hcause : r.Describes filler vs[i] cause :=
      hverdicts.get hi' hi cause hfails'
    exact .onlyOf hvs hjudges (List.getElem?_eq_getElem hi') hfails hearlier hcause (by omega)
      (by omega) (Failure.isOf_failure path x _ _)

theorem tells_checkUnion {branches : List Expression} {work : Expression → Work}
    (h : ∀ e ∈ branches, Tells r (Verdict.Blames (r.Describes e x)) (work e)) :
    Tells r (Verdict.Blames (r.Describes (.disj branches) x))
      (checkUnion path (branches.map work) x) := by
  intro m hm
  obtain ⟨hverdicts, hm'⟩ := tells_each h m hm
  rw [checkUnion]
  dsimp only
  revert hverdicts
  generalize (each (branches.map work) m).1 = verdicts
  intro hverdicts
  have hlength := hverdicts.length_eq
  rw [List.length_map, hlength]
  split
  · exact ⟨Verdict.blames_ok _, hm'⟩
  · rename_i hall
    refine ⟨Verdict.blames_error (.union ?_ ?_ (Failure.isOf_failure path x _ _)), hm'⟩
    · have := length_failures_le verdicts
      omega
    · intro i hb hc
      have hcause : verdicts[i]? = some (.error (failures verdicts)[i]) := by
        conv_lhs => rw [eq_map_failures hall]
        rw [List.getElem?_map, List.getElem?_eq_getElem hc]
        rfl
      obtain ⟨hi, hcause⟩ := List.getElem?_eq_some_iff.mp hcause
      exact hverdicts.get hb hi _ hcause

theorem tells_checkComplement {work : Work} {part : Expression}
    (h : Tells r (Verdict.Blames (r.Describes part x)) work) :
    Tells r (Verdict.Blames (r.Describes (.compl part) x))
      (checkComplement path work part x) := by
  intro m hm
  obtain ⟨-, hm'⟩ := h m hm
  rw [checkComplement]
  split
  · rename_i found m' heq
    rw [heq] at hm'
    exact ⟨Verdict.blames_error (.complement (Failure.isOf_failure path x _ _)), hm'⟩
  · rename_i failure m' heq
    rw [heq] at hm'
    exact ⟨Verdict.blames_ok _, hm'⟩

theorem describes_of_checkCount {restriction : Restriction} {n : Nat} {e : Expression}
    (hlow : restriction ≠ .maxCardinality → vs.length < n →
      ∀ f : Failure, f.IsOf x (.restrictionViolation restriction p n vs.length none) →
        r.Describes e x f)
    (hhigh : restriction ≠ .minCardinality → n = 0 → 0 < vs.length →
      ∀ f : Failure, f.IsOf x (.restrictionViolation restriction p 0 vs.length none) →
        r.Describes e x f) :
    Verdict.Blames (r.Describes e x) (checkCount path restriction p n x vs) := by
  rw [checkCount]
  split
  · rename_i h
    exact Verdict.blames_error (hlow h.1 h.2 _ (Failure.isOf_failure path x _ _))
  · split
    · rename_i h
      exact Verdict.blames_error (hhigh h.1 h.2.1 h.2.2 _ (Failure.isOf_failure path x _ _))
    · exact Verdict.blames_ok _

theorem describes_of_checkSelf (hvs : r.values? p x = some vs) :
    Verdict.Blames (r.Describes (.selfOf p) x) (checkSelf path p x vs) := by
  rw [checkSelf]
  split
  · exact Verdict.blames_ok _
  · rename_i hx
    exact Verdict.blames_error (.selfOf hvs hx (Failure.isOf_failure path x _ _))

theorem describes_of_checkDatatype {c : Term} {l : Literal} :
    Verdict.Blames (r.Describes (.concept c) (.literal l)) (checkDatatype path c l) := by
  rw [checkDatatype]
  split
  · exact Verdict.blames_ok _
  · exact Verdict.blames_error (.notMember ⟨rfl, rfl, rfl⟩)

theorem tells_checkClass {c : Term} {unfold : ClassPath → Expression → Term → Work}
    (h : ∀ d, r.Definition (.concept c) d →
      Tells r (Verdict.Blames (r.Describes d x)) (unfold (path.push c) d x)) :
    Tells r (Verdict.Blames (r.Describes (.concept c) x)) (checkClass r unfold path c x) := by
  by_cases hx : x.isIndividual = true
  · intro m hm
    rw [checkClass]
    · split
      · rename_i error herror
        refine ⟨Verdict.blames_error ?_, hm⟩
        exact .refused hx (Or.inl herror) (Failure.isOf_failure path x _ _)
      · dsimp only
        split
        · exact ⟨Verdict.blames_error (.notMember ⟨rfl, rfl, rfl⟩), hm⟩
        · apply tells_every _ m hm
          rw [List.forall_mem_cons, List.forall_mem_map]
          refine ⟨tells_done (Verdict.blames_ok _), ?_⟩
          intro d hd m' hm'
          have hdefinition : r.Definition (.concept c) d := by
            rcases List.mem_append.mp hd with hd | hd
            · exact .superClass hd
            · exact .equivalent hd
          obtain ⟨hverdict, hafter⟩ := h d hdefinition m' hm'
          exact ⟨fun f hf => .definition hdefinition (hverdict f hf), hafter⟩
    · rintro l rfl
      exact absurd hx (by simp [Term.isIndividual])
  · obtain ⟨l, rfl⟩ := Term.exists_literal (by simpa using hx)
    exact tells_done describes_of_checkDatatype

end Rules

/-! ## Translations -/

/-- Each translation with a truthful memory describes its pair and leaves such a memory. -/
theorem tells_translateWithin (r : Reasoner) (depth : Nat) (path : ClassPath) (e : Expression)
    (x : Term) :
    Tells r (Verdict.Blames (r.Describes e x)) (translateWithin r depth path e x) := by
  induction depth, e, x using translateWithin_induction r generalizing path with
  | round depth e x hpart hdefinition =>
    intro m hm
    -- the memory after a translation occurs, as the one before it does
    suffices hdescribes : Verdict.Blames (r.Describes e x) (translateWithin r depth path e x m).1 ∧
        (translateWithin r depth path e x m).2.Honest r from
      ⟨hdescribes.1, hm.reached.translate depth path e x, hdescribes.2⟩
    have hask : ∀ e' x', r.Part e x e' x' → Tells r (Verdict.Blames (r.Describes e' x'))
        (evaluate r (unfoldWithin r depth) path e' x') := by
      intro e' x' h
      rw [← translateWithin_eq_evaluate]
      exact hpart e' x' h path
    rw [translateWithin_eq_evaluate]
    cases e with
    | top =>
      rw [evaluate]
      exact describes_memoised hm (tells_done (Verdict.blames_ok []))
    | bottom =>
      rw [evaluate]
      apply describes_memoised hm
      exact tells_done (Verdict.blames_error (.bottom (Failure.isOf_failure path x _ _)))
    | concept c =>
      rw [evaluate]
      apply describes_memoised hm
      apply tells_checkClass
      intro d h
      -- without depth left nothing fails
      cases depth with
      | zero => exact tells_done (Verdict.blames_ok [])
      | succ below => exact hdefinition below d rfl h (path.push c)
    | conj parts =>
      rw [evaluate]
      apply describes_memoised hm
      apply tells_every
      rw [evaluateEach_eq_map, List.map_map, List.forall_mem_map]
      intro e' he' m' hm'
      obtain ⟨hverdict, hafter⟩ := hask e' x (.conj he') m' hm'
      exact ⟨fun f hf => .part he' (hverdict f hf), hafter⟩
    | disj branches =>
      have hworks : (evaluateEach r (unfoldWithin r depth) path branches).map (· x) =
          branches.map fun e' => evaluate r (unfoldWithin r depth) path e' x := by
        rw [evaluateEach_eq_map, List.map_map]
        rfl
      rw [evaluate]
      apply describes_memoised hm
      simp only [hworks]
      exact tells_checkUnion fun e' he' => hask e' x (.disj he')
    | compl part =>
      rw [evaluate]
      exact describes_memoised hm (tells_checkComplement (hask part x .compl))
    | someOf p filler =>
      rw [evaluate]
      apply describes_memoised hm
      apply tells_onValues
      intro vs hvs
      exact tells_checkSome hvs fun v hv => hask filler v (.someOf hvs hv)
    | onlyOf p filler =>
      rw [evaluate]
      apply describes_memoised hm
      apply tells_onValues
      intro vs hvs
      have hfiller : evaluate r (unfoldWithin r depth) path filler =
          translateWithin r depth path filler :=
        funext fun v => (translateWithin_eq_evaluate r depth path filler v).symm
      rw [hfiller]
      exact tells_checkOnly hvs fun v hv => hpart filler v (.onlyOf hvs hv) path
    | atLeast p n =>
      rw [evaluate]
      apply describes_memoised hm
      apply tells_onValues
      intro vs hvs
      exact tells_done (describes_of_checkCount (fun _ hn _ hf => .atLeast hvs hn hf)
        fun hmin => absurd rfl hmin)
    | atMost p n =>
      rw [evaluate]
      apply describes_memoised hm
      apply tells_onValues
      intro vs hvs
      refine tells_done (describes_of_checkCount (fun hmax => absurd rfl hmax) ?_)
      rintro - rfl hn f hf
      exact .atMost hvs hn hf
    | exactly p n =>
      rw [evaluate]
      apply describes_memoised hm
      apply tells_onValues
      intro vs hvs
      refine tells_done (describes_of_checkCount (fun _ hn _ hf => .exactlyFew hvs hn hf) ?_)
      rintro - rfl hn f hf
      exact .exactlyNone hvs hn hf
    | selfOf p =>
      rw [evaluate]
      apply describes_memoised hm
      apply tells_onValues
      exact fun vs hvs => tells_done (describes_of_checkSelf hvs)
    | valueOf p v =>
      rw [evaluate]
      exact describes_memoised hm (tells_done (Verdict.blames_ok []))
    | nominal a =>
      rw [evaluate]
      exact describes_memoised hm (tells_done (Verdict.blames_ok []))

/-- Each failure in a memory that occurs describes its pair. -/
theorem truthful_of_reached {r : Reasoner} {m : Memo} (h : m.Reached r) : m.Truthful r := by
  induction h with
  | empty => exact ⟨.empty, Memo.honest_empty r⟩
  | start h hp ih => exact ⟨h.start hp, ih.honest.start _⟩
  | translate h depth path e x ih => exact (tells_translateWithin r depth path e x _ ih).2

end Evidence

/-- A failure that a translator returns, after any calls, describes the pair that it was asked for,
and each failure inside it describes the pair at which it was found. -/
theorem describes_of_translate_error (k : Knowledge) (calls : List (Expression × Term))
    (e : Expression) (x : Term) (f : Failure)
    (h : ((Translator.after k.reasoner calls).translate k.reasoner e x).1 = .error f) :
    k.reasoner.Describes e x f ∧
      ∀ g, f.Contains g → ∃ e' x', k.reasoner.Describes e' x' g := by
  have htruthful : (Translator.after k.reasoner calls).memo.Truthful k.reasoner :=
    truthful_of_reached (Translator.reached_run .empty calls)
  obtain ⟨hdescribes, -⟩ := tells_translateWithin k.reasoner k.reasoner.definedPairs
    (Translator.after k.reasoner calls).path e x _ htruthful
  have hf := hdescribes f h
  exact ⟨hf, fun g hg => hf.exists_of_contains hg⟩

/-! ### A union of two restrictions

Of the two values of x under p only y has a value under q itself, as is known of z from before. So
not all values of x have one, and there are not three of them. -/

namespace TwoBranches

def knowledge : Knowledge where
  store := .ofList
    [⟨.iri ⟨"x"⟩, .iri ⟨"p"⟩, .iri ⟨"y"⟩⟩, ⟨.iri ⟨"x"⟩, .iri ⟨"p"⟩, .iri ⟨"z"⟩⟩,
      ⟨.iri ⟨"y"⟩, .iri ⟨"q"⟩, .iri ⟨"x"⟩⟩]
  maxDepth := 1

def valued : Expression := .atLeast (.iri ⟨"q"⟩) 1

def union : Expression := .disj [.onlyOf (.iri ⟨"p"⟩) valued, .atLeast (.iri ⟨"p"⟩) 3]

def history : List (Expression × Term) := [(valued, .iri ⟨"z"⟩)]

/-- What a violated restriction expects, and what is there. -/
def counts (f : Failure) : Option (Restriction × Nat × Nat) :=
  match f.kind with
  | .restrictionViolation restriction _ expected observed _ =>
    some (restriction, expected, observed)
  | _ => none

theorem exists_failure : ∃ f, ((Translator.after knowledge.reasoner history).translate
      knowledge.reasoner union (.iri ⟨"x"⟩)).1 = .error f ∧
    f.parts.map counts = [some (.allValuesFrom, 2, 1), some (.minCardinality, 3, 2)] ∧
      (f.parts.flatMap Failure.parts).map counts = [some (.minCardinality, 1, 0)] :=
  ⟨_, rfl, by decide +kernel, by decide +kernel⟩

theorem describes_union : ∃ f, ((Translator.after knowledge.reasoner history).translate
      knowledge.reasoner union (.iri ⟨"x"⟩)).1 = .error f ∧
    f.parts.map counts = [some (.allValuesFrom, 2, 1), some (.minCardinality, 3, 2)] ∧
      (f.parts.flatMap Failure.parts).map counts = [some (.minCardinality, 1, 0)] ∧
      knowledge.reasoner.Describes union (.iri ⟨"x"⟩) f ∧
        ∀ g, f.Contains g → ∃ e x, knowledge.reasoner.Describes e x g := by
  obtain ⟨f, herror, hcounts, hcauses⟩ := exists_failure
  obtain ⟨hf, hinside⟩ := describes_of_translate_error knowledge history _ _ f herror
  exact ⟨f, herror, hcounts, hcauses, hf, hinside⟩

end TwoBranches

end GraphConformance
