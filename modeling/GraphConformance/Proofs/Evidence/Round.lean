import GraphConformance.Evidence.Rules

/-!
# One round of the rules of evidence

`Reasoner.round` is one round of the rules without explanations: what is found about an expression,
given how to find out about its parts and about the definitions of classes. It is written for any
monad, so the same rules can be read with a memory at hand or as plain recursion.

A `Simulation` relates the computations of two monads and respects return and sequencing. Rounds
that ask related questions are then related (`Simulation.round`). This is the only place where the
forms of expressions are looked at one by one.
-/

set_option autoImplicit false

namespace GraphConformance

open Vocabulary Evidence

/-- What is found about a membership: the statements that witness it, or nothing when it fails. -/
abbrev Finding := Option (List Triple)

namespace Finding

/-- All statements found. -/
def union (findings : List Finding) : List Triple :=
  findings.foldl (fun statements finding => Distinct.union statements (finding.getD [])) []

/-- The statements that lead to values, each followed by what was found about its value. -/
def ofValues (property individual : Term) (findings : List (Term × Finding)) : List Triple :=
  findings.foldl (fun statements (v, finding) =>
    match finding with
    | some found => Distinct.union (Distinct.insertLast statements ⟨individual, property, v⟩) found
    | none => statements) []

end Finding

/-- The asserted values of a property, unless the question is refused. A literal has none. -/
def Reasoner.values? (r : Reasoner) (property individual : Term) : Option (List Term) :=
  match individual with
  | .literal _ => some []
  | _ => (r.edges individual).toOption.map fun edges =>
      (edges.filter (·.1 = property)).map Prod.snd

section Round

variable {M : Type → Type} [Monad M]

/-- Everything is needed; the first failure ends it. -/
def findAll : List (M Finding) → M Finding
  | [] => pure (some [])
  | ask :: rest => do
    match ← ask with
    | none => pure none
    | some found => return (← findAll rest).map (Distinct.union found)

/-- What is found by each question. -/
def findEach : List (M Finding) → M (List Finding)
  | [] => pure []
  | ask :: rest => do
    let finding ← ask
    return finding :: (← findEach rest)

/-- The first value about which something is found. -/
def findFirst (ask : Term → M Finding) : List Term → M (Option (Term × List Triple))
  | [] => pure none
  | v :: rest => do
    match ← ask v with
    | some found => return some (v, found)
    | none => findFirst ask rest

namespace Reasoner

/-- Go on with the asserted values of a property. -/
def withValues (r : Reasoner) (property individual : Term) (next : List Term → M Finding) :
    M Finding :=
  match r.values? property individual with
  | some vs => next vs
  | none => pure none

/-- Membership in a class and in all that defines it. -/
def inClass (r : Reasoner) (unfold : Expression → M Finding) (c individual : Term) : M Finding :=
  match individual with
  | .literal l =>
    pure (if c = .iri Rdfs.literal ∨ c = .iri l.effectiveDatatype then some [] else none)
  | _ =>
    match r.types individual with
    | .error _ => pure none
    | .ok types =>
      let isMember := types.any fun t => t = c || r.subsumes (typeExpression t) (.concept c)
      let equivalents := r.equivalentClasses c
      if !isMember && equivalents.isEmpty then pure none
      else
        let membership := if isMember then [⟨individual, .iri Rdf.type, c⟩] else []
        findAll (pure (some membership) :: (r.superClasses c ++ equivalents).map unfold)

/-- One round of the rules: `ask` finds out about parts, and `unfold` about definitions. -/
def round (r : Reasoner) (ask : Expression → Term → M Finding)
    (unfold : Expression → Term → M Finding) (e : Expression) (individual : Term) : M Finding :=
  match e with
  | .top => pure (some [])
  | .bottom => pure none
  | .concept c => r.inClass (unfold · individual) c individual
  | .conj parts => findAll (parts.map (ask · individual))
  | .disj branches => do
    let findings ← findEach (branches.map (ask · individual))
    return if findings.any Option.isSome then some (Finding.union findings) else none
  | .compl part => do
    let finding ← ask part individual
    return if finding.isSome then none else some []
  | .someOf p filler =>
    r.withValues p individual fun vs => do
      let first ← findFirst (ask filler) vs
      return first.map fun (v, found) => Distinct.union [⟨individual, p, v⟩] found
  | .onlyOf p filler =>
    r.withValues p individual fun vs => do
      let findings ← findEach (vs.map (ask filler))
      return if findings.all Option.isSome then
        some (Finding.ofValues p individual (vs.zip findings))
      else none
  | .atLeast p n =>
    r.withValues p individual fun vs => pure <|
      if vs.length < n then none else some (Distinct.dedup (vs.map (⟨individual, p, ·⟩)))
  | .atMost p n =>
    r.withValues p individual fun vs => pure <|
      if n = 0 ∧ 0 < vs.length then none else some (Distinct.dedup (vs.map (⟨individual, p, ·⟩)))
  | .exactly p n =>
    r.withValues p individual fun vs => pure <|
      if vs.length < n ∨ n = 0 ∧ 0 < vs.length then none
      else some (Distinct.dedup (vs.map (⟨individual, p, ·⟩)))
  | .selfOf p =>
    r.withValues p individual fun vs => pure <|
      if individual ∈ vs then some [⟨individual, p, individual⟩] else none
  | .valueOf _ _ => pure (some [])
  | .nominal _ => pure (some [])

end Reasoner

end Round

/-! ## Questions of a round -/

/-- The questions about parts that a round asks. -/
inductive Reasoner.Part (r : Reasoner) : Expression → Term → Expression → Term → Prop where
  | conj {parts : List Expression} {e : Expression} {x : Term} (h : e ∈ parts) :
      Part r (.conj parts) x e x
  | disj {branches : List Expression} {e : Expression} {x : Term} (h : e ∈ branches) :
      Part r (.disj branches) x e x
  | compl {e : Expression} {x : Term} : Part r (.compl e) x e x
  | someOf {p x v : Term} {filler : Expression} {vs : List Term} (h : r.values? p x = some vs)
      (hv : v ∈ vs) : Part r (.someOf p filler) x filler v
  | onlyOf {p x v : Term} {filler : Expression} {vs : List Term} (h : r.values? p x = some vs)
      (hv : v ∈ vs) : Part r (.onlyOf p filler) x filler v

/-- The definitions that a round unfolds. -/
inductive Reasoner.Definition (r : Reasoner) : Expression → Expression → Prop where
  | superClass {c : Term} {d : Expression} (h : d ∈ r.superClasses c) :
      Definition r (.concept c) d
  | equivalent {c : Term} {d : Expression} (h : d ∈ r.equivalentClasses c) :
      Definition r (.concept c) d

/-- Pairs among which all pairs are that their rounds ask about. -/
structure Reasoner.Encloses (r : Reasoner) (U : Expression → Term → Prop) : Prop where
  part : ∀ {e x e' x'}, U e x → r.Part e x e' x' → U e' x'
  definition : ∀ {e x d}, U e x → r.Definition e d → U d x

theorem Reasoner.Part.sizeOf_lt {r : Reasoner} {e e' : Expression} {x x' : Term}
    (h : r.Part e x e' x') : sizeOf e' < sizeOf e := by
  cases h with
  | conj h =>
    have := List.sizeOf_lt_of_mem h
    simp only [Expression.conj.sizeOf_spec]
    omega
  | disj h =>
    have := List.sizeOf_lt_of_mem h
    simp only [Expression.disj.sizeOf_spec]
    omega
  | compl => simp
  | someOf h hv => simp only [Expression.someOf.sizeOf_spec]; omega
  | onlyOf h hv => simp only [Expression.onlyOf.sizeOf_spec]; omega

/-! ## Simulations -/

/-- A relation between the computations of two monads that respects return and sequencing. -/
structure Simulation (M N : Type → Type) [Monad M] [Monad N] where
  Rel : {α : Type} → M α → N α → Prop
  rel_pure : ∀ {α : Type} (a : α), Rel (pure a : M α) (pure a)
  rel_bind : ∀ {α β : Type} {x : M α} {y : N α} {f : α → M β} {g : α → N β},
    Rel x y → (∀ a, Rel (f a) (g a)) → Rel (x >>= f) (y >>= g)

namespace Simulation

variable {M N : Type → Type} [Monad M] [Monad N] (S : Simulation M N)

theorem findAll {ι : Type} {f : ι → M Finding} {g : ι → N Finding} {is : List ι}
    (h : ∀ i ∈ is, S.Rel (f i) (g i)) :
    S.Rel (findAll (is.map f)) (GraphConformance.findAll (is.map g)) := by
  induction is with
  | nil => exact S.rel_pure _
  | cons i is ih =>
    apply S.rel_bind (h i List.mem_cons_self)
    intro finding
    cases finding with
    | none => exact S.rel_pure _
    | some found =>
      apply S.rel_bind (ih fun j hj => h j (List.mem_cons_of_mem _ hj))
      exact fun _ => S.rel_pure _

theorem findEach {ι : Type} {f : ι → M Finding} {g : ι → N Finding} {is : List ι}
    (h : ∀ i ∈ is, S.Rel (f i) (g i)) :
    S.Rel (findEach (is.map f)) (GraphConformance.findEach (is.map g)) := by
  induction is with
  | nil => exact S.rel_pure _
  | cons i is ih =>
    apply S.rel_bind (h i List.mem_cons_self)
    intro finding
    apply S.rel_bind (ih fun j hj => h j (List.mem_cons_of_mem _ hj))
    exact fun _ => S.rel_pure _

theorem findFirst {f : Term → M Finding} {g : Term → N Finding} {vs : List Term}
    (h : ∀ v ∈ vs, S.Rel (f v) (g v)) :
    S.Rel (findFirst f vs) (GraphConformance.findFirst g vs) := by
  induction vs with
  | nil => exact S.rel_pure _
  | cons v vs ih =>
    apply S.rel_bind (h v List.mem_cons_self)
    intro finding
    cases finding with
    | some found => exact S.rel_pure _
    | none => exact ih fun w hw => h w (List.mem_cons_of_mem _ hw)

theorem withValues {r : Reasoner} {p x : Term} {f : List Term → M Finding}
    {g : List Term → N Finding} (h : ∀ vs, r.values? p x = some vs → S.Rel (f vs) (g vs)) :
    S.Rel (r.withValues p x f) (r.withValues p x g) := by
  unfold Reasoner.withValues
  cases hv : r.values? p x with
  | some vs => exact h vs hv
  | none => exact S.rel_pure _

theorem inClass {r : Reasoner} {f : Expression → M Finding} {g : Expression → N Finding}
    {c x : Term} (h : ∀ d, r.Definition (.concept c) d → S.Rel (f d) (g d)) :
    S.Rel (r.inClass f c x) (r.inClass g c x) := by
  unfold Reasoner.inClass
  split
  · exact S.rel_pure _
  · split
    · exact S.rel_pure _
    · dsimp only
      split
      · exact S.rel_pure _
      · apply S.rel_bind (S.rel_pure _)
        intro finding
        cases finding with
        | none => exact S.rel_pure _
        | some found =>
          have hall : ∀ d ∈ r.superClasses c ++ r.equivalentClasses c, S.Rel (f d) (g d) := by
            intro d hd
            rcases List.mem_append.mp hd with hd | hd
            · exact h d (.superClass hd)
            · exact h d (.equivalent hd)
          exact S.rel_bind (S.findAll hall) fun _ => S.rel_pure _

/-- Rounds that ask related questions are related. -/
theorem round {r : Reasoner} {ask unfold : Expression → Term → M Finding}
    {ask' unfold' : Expression → Term → N Finding} {e : Expression} {x : Term}
    (hask : ∀ e' x', r.Part e x e' x' → S.Rel (ask e' x') (ask' e' x'))
    (hunfold : ∀ d, r.Definition e d → S.Rel (unfold d x) (unfold' d x)) :
    S.Rel (r.round ask unfold e x) (r.round ask' unfold' e x) := by
  cases e with
  | top => exact S.rel_pure _
  | bottom => exact S.rel_pure _
  | concept c => exact S.inClass hunfold
  | conj parts => exact S.findAll fun e' he' => hask e' x (.conj he')
  | disj branches =>
    apply S.rel_bind (S.findEach fun e' he' => hask e' x (.disj he'))
    exact fun _ => S.rel_pure _
  | compl part => exact S.rel_bind (hask part x .compl) fun _ => S.rel_pure _
  | someOf p filler =>
    apply S.withValues
    intro vs hvs
    apply S.rel_bind (S.findFirst fun v hv => hask filler v (.someOf hvs hv))
    exact fun _ => S.rel_pure _
  | onlyOf p filler =>
    apply S.withValues
    intro vs hvs
    apply S.rel_bind (S.findEach fun v hv => hask filler v (.onlyOf hvs hv))
    exact fun _ => S.rel_pure _
  | atLeast p n => exact S.withValues fun _ _ => S.rel_pure _
  | atMost p n => exact S.withValues fun _ _ => S.rel_pure _
  | exactly p n => exact S.withValues fun _ _ => S.rel_pure _
  | selfOf p => exact S.withValues fun _ _ => S.rel_pure _
  | valueOf p v => exact S.rel_pure _
  | nominal a => exact S.rel_pure _

end Simulation

end GraphConformance
