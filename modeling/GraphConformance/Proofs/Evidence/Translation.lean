import GraphConformance.Proofs.Evidence.Round

/-!
# Translation as rounds

Without the explanations of its failures, a piece of work is a computation with a memory that ends
in a finding (`outcome`). Every way to combine work is then the combination of rounds of the same
name, and to translate a pair is to look it up or to do one round about it (`translateWithin_eq`).
Proofs about translation go by depth and by size of the expression, in the order of the questions
(`translateWithin_induction`).
-/

set_option autoImplicit false

namespace GraphConformance.Evidence

open Vocabulary

/-! ## Findings of work -/

/-- A computation with a memory at hand. -/
def Recall (α : Type) : Type := Memo → α × Memo

instance : Monad Recall where
  pure a := fun m => (a, m)
  bind x f := fun m => f (x m).1 (x m).2

/-- Work without the explanations of its failures. -/
def outcome {ε α : Type} (work : Memo → Except ε α × Memo) : Recall (Option α) :=
  fun m => ((work m).1.toOption, (work m).2)

/-- Several verdicts without explanations. -/
def outcomes (work : Memo → List Verdict × Memo) : Recall (List Finding) :=
  fun m => ((work m).1.map Except.toOption, (work m).2)

theorem bind_apply {α β : Type} (x : Recall α) (f : α → Recall β) (m : Memo) :
    (x >>= f) m = f (x m).1 (x m).2 := rfl

theorem pure_apply {α : Type} (a : α) (m : Memo) : (pure a : Recall α) m = (a, m) := rfl

theorem outcome_done (verdict : Verdict) : outcome (done verdict) = pure verdict.toOption := rfl

theorem outcome_every (ws : List Work) : outcome (every ws) = findAll (ws.map outcome) := by
  induction ws with
  | nil => rfl
  | cons w ws ih =>
    funext m
    rw [List.map_cons, findAll, bind_apply, ← ih]
    simp only [outcome, every]
    cases w m with
    | mk verdict m' =>
      cases verdict with
      | error failure => rfl
      | ok found =>
        simp only [Except.toOption, bind_apply, outcome]
        cases every ws m' with
        | mk verdict m'' => cases verdict <;> rfl

theorem outcome_every_done {ι : Type} (verdict : Verdict) (f : ι → Work) (is : List ι) :
    outcome (every (done verdict :: is.map f)) =
      findAll (pure verdict.toOption :: is.map fun i => outcome (f i)) := by
  rw [outcome_every, List.map_cons, List.map_map]
  rfl

theorem outcomes_each (ws : List Work) : outcomes (each ws) = findEach (ws.map outcome) := by
  induction ws with
  | nil => rfl
  | cons w ws ih =>
    funext m
    rw [List.map_cons, findEach, bind_apply, bind_apply, ← ih]
    rfl

theorem outcome_firstMember (work : Term → Work) (vs : List Term) (cause : Option Failure) :
    outcome (firstMember work vs cause) = findFirst (fun v => outcome (work v)) vs := by
  induction vs generalizing cause with
  | nil => rfl
  | cons v vs ih =>
    funext m
    rw [findFirst, bind_apply]
    simp only [outcome, firstMember]
    cases h : work v m with
    | mk verdict m' =>
      cases verdict with
      | ok found => rfl
      | error failure => exact congrFun (ih (some failure)) m'

theorem length_each (ws : List Work) (m : Memo) : (each ws m).1.length = ws.length := by
  induction ws generalizing m with
  | nil => rfl
  | cons w ws ih => exact congrArg Nat.succ (ih (w m).2)

theorem failures_cons_error (failure : Failure) (verdicts : List Verdict) :
    failures (.error failure :: verdicts) = failure :: failures verdicts := rfl

theorem failures_cons_ok (found : List Triple) (verdicts : List Verdict) :
    failures (.ok found :: verdicts) = failures verdicts := rfl

theorem length_failures_le (verdicts : List Verdict) :
    (failures verdicts).length ≤ verdicts.length :=
  List.length_filterMap_le _ verdicts

/-- Some verdict has a finding exactly when not all of them are failures. -/
theorem any_isSome_iff (verdicts : List Verdict) :
    (verdicts.map Except.toOption).any Option.isSome = true ↔
      (failures verdicts).length < verdicts.length := by
  induction verdicts with
  | nil => simp [failures]
  | cons verdict verdicts ih =>
    cases verdict with
    | error failure =>
      rw [failures_cons_error, List.map_cons, List.any_cons, List.length_cons, List.length_cons]
      simpa [Except.toOption] using ih
    | ok found =>
      have := length_failures_le verdicts
      rw [failures_cons_ok, List.map_cons, List.any_cons, List.length_cons]
      simp only [Except.toOption, Option.isSome_some, Bool.true_or, true_iff]
      omega

/-- All verdicts have a finding exactly when none of them is a failure. -/
theorem all_isSome_iff (verdicts : List Verdict) :
    (verdicts.map Except.toOption).all Option.isSome = true ↔ failures verdicts = [] := by
  induction verdicts with
  | nil => simp [failures]
  | cons verdict verdicts ih =>
    cases verdict with
    | error failure => simp [failures_cons_error, Except.toOption]
    | ok found => simpa [failures_cons_ok, Except.toOption] using ih

/-! ## Restrictions, classes, unions and complements -/

theorem values_toOption (r : Reasoner) (path : ClassPath) (p x : Term) :
    (values r path p x).toOption = r.values? p x := by
  cases x with
  | literal l => rfl
  | iri i =>
    simp only [values, Reasoner.values?]
    cases r.edges (.iri i) <;> rfl
  | blank b =>
    simp only [values, Reasoner.values?]
    cases r.edges (.blank b) <;> rfl

theorem outcome_onValues (r : Reasoner) (path : ClassPath) (p x : Term)
    (work : List Term → Work) :
    outcome (onValues r path p x work) = r.withValues p x fun vs => outcome (work vs) := by
  unfold Reasoner.withValues
  rw [← values_toOption r path]
  cases h : values r path p x with
  | ok vs =>
    funext m
    simp only [outcome, onValues, h]
    rfl
  | error failure =>
    funext m
    simp only [outcome, onValues, h]
    rfl

theorem outcome_checkSome (path : ClassPath) (work : Term → Work) (p : Term) (filler : Expression)
    (x : Term) (vs : List Term) :
    outcome (checkSome path work p filler x vs) = (do
      let first ← findFirst (fun v => outcome (work v)) vs
      return first.map fun (v, found) => Distinct.union [⟨x, p, v⟩] found) := by
  rw [← outcome_firstMember work vs none]
  funext m
  rw [bind_apply]
  simp only [outcome, checkSome]
  cases firstMember work vs none m with
  | mk result m' => cases result <;> rfl

/-- The statements of values, told by the findings about them. -/
theorem memberStatements_eq (p x : Term) (vs : List Term) (verdicts : List Verdict) :
    memberStatements p x (vs.zip verdicts) =
      Finding.ofValues p x (vs.zip (verdicts.map Except.toOption)) := by
  rw [memberStatements, Finding.ofValues, List.zip_map_right, List.foldl_map]
  congr 1
  funext statements pair
  obtain ⟨v, verdict⟩ := pair
  cases verdict <;> rfl

theorem outcome_checkOnly (path : ClassPath) (work : Term → Work) (p : Term) (filler : Expression)
    (x : Term) (vs : List Term) :
    outcome (checkOnly path work p filler x vs) = (do
      let findings ← findEach (vs.map fun v => outcome (work v))
      return if findings.all Option.isSome then
        some (Finding.ofValues p x (vs.zip findings))
      else none) := by
  -- all values are tried before any failure is looked at
  have heach := outcomes_each (vs.map work)
  rw [List.map_map] at heach
  rw [show (vs.map fun v => outcome (work v)) = vs.map (outcome ∘ work) from rfl, ← heach]
  funext m
  cases h : each (vs.map work) m with
  | mk verdicts m' =>
    simp only [bind_apply, pure_apply, outcome, outcomes, checkOnly, h]
    by_cases hall : failures verdicts = []
    · rw [if_pos ((all_isSome_iff verdicts).mpr hall), ← memberStatements_eq, hall]
      rfl
    · rw [if_neg (fun h => hall ((all_isSome_iff verdicts).mp h))]
      cases hf : failures verdicts with
      | nil => exact absurd hf hall
      | cons cause rest => rfl

/-- The statements of the branches that hold, told by the findings about the branches. -/
theorem foldl_union_eq (verdicts : List Verdict) :
    (verdicts.foldl (fun statements verdict =>
      match verdict with
      | .ok found => Distinct.union statements found
      | .error _ => statements) []) = Finding.union (verdicts.map Except.toOption) := by
  rw [Finding.union, List.foldl_map]
  congr 1
  funext statements verdict
  cases verdict <;> rfl

theorem outcome_checkUnion (path : ClassPath) (branches : List Work) (x : Term) :
    outcome (checkUnion path branches x) = (do
      let findings ← findEach (branches.map outcome)
      return if findings.any Option.isSome then some (Finding.union findings) else none) := by
  rw [← outcomes_each]
  funext m
  have hlength := length_each branches m
  cases h : each branches m with
  | mk verdicts m' =>
    rw [h] at hlength
    simp only [bind_apply, pure_apply, outcome, outcomes, checkUnion, h, ← hlength]
    by_cases hlt : (failures verdicts).length < verdicts.length
    · rw [if_pos hlt, if_pos ((any_isSome_iff verdicts).mpr hlt), ← foldl_union_eq]
      rfl
    · rw [if_neg hlt, if_neg (fun h => hlt ((any_isSome_iff verdicts).mp h))]
      rfl

theorem outcome_checkComplement (path : ClassPath) (work : Work) (part : Expression) (x : Term) :
    outcome (checkComplement path work part x) = (do
      let finding ← outcome work
      return if finding.isSome then none else some []) := by
  funext m
  cases h : work m with
  | mk verdict m' =>
    simp only [bind_apply, outcome, checkComplement, h]
    cases verdict <;> rfl

theorem outcome_checkClass (r : Reasoner) (unfold : ClassPath → Expression → Term → Work)
    (path : ClassPath) (c x : Term) :
    outcome (checkClass r unfold path c x) =
      r.inClass (fun d => outcome (unfold (path.push c) d x)) c x := by
  funext m
  cases x
  case literal l =>
    simp only [outcome, checkClass, checkDatatype, Reasoner.inClass]
    split <;> rfl
  -- what is no literal is a member by its asserted types
  all_goals
    simp only [outcome, checkClass, Reasoner.inClass]
    cases r.types _ with
    | error e => rfl
    | ok types =>
      dsimp only
      split
      · rfl
      · exact congrFun (outcome_every_done (.ok _) _ _) m

theorem toOption_checkCount (path : ClassPath) (restriction : Restriction) (p : Term) (n : Nat)
    (x : Term) (vs : List Term) :
    (checkCount path restriction p n x vs).toOption =
      if restriction ≠ .maxCardinality ∧ vs.length < n ∨
          restriction ≠ .minCardinality ∧ n = 0 ∧ 0 < vs.length then none
      else some (Distinct.dedup (vs.map (⟨x, p, ·⟩))) := by
  unfold checkCount
  dsimp only
  by_cases hlow : restriction ≠ .maxCardinality ∧ vs.length < n
  · rw [if_pos hlow, if_pos (Or.inl hlow)]
    rfl
  · rw [if_neg hlow]
    by_cases hhigh : restriction ≠ .minCardinality ∧ n = 0 ∧ 0 < vs.length
    · rw [if_pos hhigh, if_pos (Or.inr hhigh)]
      rfl
    · rw [if_neg hhigh, if_neg (not_or.mpr ⟨hlow, hhigh⟩)]
      rfl

theorem toOption_checkSelf (path : ClassPath) (p x : Term) (vs : List Term) :
    (checkSelf path p x vs).toOption = if x ∈ vs then some [⟨x, p, x⟩] else none := by
  unfold checkSelf
  split <;> rfl

/-! ## Rounds -/

/-- The path on which the definitions of an expression are unfolded. -/
def pathInside (path : ClassPath) : Expression → ClassPath
  | .concept c => path.push c
  | _ => path

/-- Translate against a definition, with further definitions at most so deep inside each other. -/
def unfoldWithin (r : Reasoner) : Nat → ClassPath → Expression → Term → Work
  | 0 => fun _ _ _ => done (.ok [])
  | depth + 1 => translateWithin r depth

theorem evaluateEach_eq_map (r : Reasoner) (unfold : ClassPath → Expression → Term → Work)
    (path : ClassPath) (es : List Expression) :
    evaluateEach r unfold path es = es.map (evaluate r unfold path) := by
  induction es with
  | nil => rfl
  | cons e es ih => rw [evaluateEach, ih, List.map_cons]

theorem translateWithin_eq_evaluate (r : Reasoner) (depth : Nat) (path : ClassPath)
    (e : Expression) (x : Term) :
    translateWithin r depth path e x = evaluate r (unfoldWithin r depth) path e x := by
  cases depth <;> rfl

/-- To translate a pair is to look it up, or to do one round about it and keep the verdict. -/
theorem translateWithin_eq (r : Reasoner) (depth : Nat) (path : ClassPath) (e : Expression)
    (x : Term) :
    ∃ work, translateWithin r depth path e x = memoised e x work ∧
      outcome work = r.round (fun e' x' => outcome (translateWithin r depth path e' x'))
        (fun d x' => outcome (unfoldWithin r depth (pathInside path e) d x')) e x := by
  simp only [translateWithin_eq_evaluate]
  -- the work of each form is the round of that form, once its explanations are dropped
  cases e with
  | top => exact ⟨_, by rw [evaluate], rfl⟩
  | bottom => exact ⟨_, by rw [evaluate], rfl⟩
  | concept c => exact ⟨_, by rw [evaluate], outcome_checkClass r _ path c x⟩
  | conj parts =>
    refine ⟨_, by rw [evaluate], (outcome_every _).trans ?_⟩
    rw [evaluateEach_eq_map, List.map_map, List.map_map, Reasoner.round]
    rfl
  | disj branches =>
    refine ⟨_, by rw [evaluate], (outcome_checkUnion path _ x).trans ?_⟩
    rw [evaluateEach_eq_map, List.map_map, List.map_map, Reasoner.round]
    rfl
  | compl part => exact ⟨_, by rw [evaluate], outcome_checkComplement path _ part x⟩
  | someOf p filler =>
    refine ⟨_, by rw [evaluate], (outcome_onValues r path p x _).trans ?_⟩
    simp only [outcome_checkSome, Reasoner.round]
  | onlyOf p filler =>
    refine ⟨_, by rw [evaluate], (outcome_onValues r path p x _).trans ?_⟩
    simp only [outcome_checkOnly, Reasoner.round]
  | atLeast p n =>
    refine ⟨_, by rw [evaluate], (outcome_onValues r path p x _).trans ?_⟩
    simp only [outcome_done, toOption_checkCount, Reasoner.round]
    simp
  | atMost p n =>
    refine ⟨_, by rw [evaluate], (outcome_onValues r path p x _).trans ?_⟩
    simp only [outcome_done, toOption_checkCount, Reasoner.round]
    simp
  | exactly p n =>
    refine ⟨_, by rw [evaluate], (outcome_onValues r path p x _).trans ?_⟩
    simp only [outcome_done, toOption_checkCount, Reasoner.round]
    simp
  | selfOf p =>
    refine ⟨_, by rw [evaluate], (outcome_onValues r path p x _).trans ?_⟩
    simp only [outcome_done, toOption_checkSelf, Reasoner.round]
  | valueOf p v => exact ⟨_, by rw [evaluate], rfl⟩
  | nominal a => exact ⟨_, by rw [evaluate], rfl⟩

/-- Induction along the questions of rounds: first by depth, then by size of the expression. -/
theorem translateWithin_induction (r : Reasoner) {motive : Nat → Expression → Term → Prop}
    (round : ∀ depth e x, (∀ e' x', r.Part e x e' x' → motive depth e' x') →
      (∀ below d, depth = below + 1 → r.Definition e d → motive below d x) → motive depth e x)
    (depth : Nat) (e : Expression) (x : Term) : motive depth e x :=
  round depth e x
    (fun e' x' h =>
      have := h.sizeOf_lt
      translateWithin_induction r round depth e' x')
    fun below d h _ =>
      have : below < depth := by omega
      translateWithin_induction r round below d x
termination_by (depth, sizeOf e)

end GraphConformance.Evidence
