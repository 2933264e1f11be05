import GraphConformance.Proofs.Evidence.Agreement
import GraphConformance.Proofs.Expression.Reading
import GraphConformance.Proofs.Knowledge.Closure
import GraphConformance.Proofs.Knowledge.Derivation

/-!
# Where statements come from

Translation finds nothing that is not asserted or told: each statement is an edge of the store or a
membership that some asserted type gives, and its subject is an individual that asserted edges lead
to (`Knowledge.Backs`).

The argument is one about computations with a memory. `Yields` says what a computation gives when
each verdict in the memory has a property, and that it keeps the memory so. A round yields
statements of a property when the statements that it adds by itself have the property and the
property passes from values to the individuals that have them (`yields_round`, under
`Reasoner.Grounded`). So every translation does, after any history and in the middle of any cycle
(`yields_translateWithin`): a pair in progress adds no statement, and a verdict that is kept is one
that was yielded before.
-/

set_option autoImplicit false

namespace GraphConformance

open Vocabulary Evidence

/-- Each statement that is found has a property. -/
def Finding.All (Q : Triple → Prop) (finding : Finding) : Prop := ∀ t ∈ finding.getD [], Q t

namespace Finding.All

variable {Q : Triple → Prop}

theorem none : Finding.All Q none := by
  intro t ht
  exact absurd ht (by simp)

theorem nil : Finding.All Q (some []) := none

theorem some_iff {found : List Triple} : Finding.All Q (some found) ↔ ∀ t ∈ found, Q t := Iff.rfl

theorem mono {R : Triple → Prop} {finding : Finding} (h : Finding.All Q finding)
    (hQR : ∀ t, Q t → R t) : Finding.All R finding := by
  intro t ht
  exact hQR t (h t ht)

theorem map_union {found : List Triple} {finding : Finding} (hfound : ∀ t ∈ found, Q t)
    (h : Finding.All Q finding) : Finding.All Q (finding.map (Distinct.union found)) := by
  cases finding with
  | none => exact h
  | some more =>
    intro t ht
    rcases Distinct.mem_union.mp ht with ht | ht
    · exact hfound t ht
    · exact h t ht

end Finding.All

/-- Properties of the statements about individuals that rounds establish: the edges to asserted
values and the memberships by asserted types have the property, and what holds of the statements
about a value holds of them as statements about an individual that has the value. -/
structure Reasoner.Grounded (r : Reasoner) (Q : Term → Triple → Prop) : Prop where
  edge : ∀ {p x v : Term} {vs : List Term}, r.values? p x = some vs → v ∈ vs → Q x ⟨x, p, v⟩
  membership : ∀ {x c : Term} {types : List Term}, x.isIndividual = true → r.types x = .ok types →
    (types.any fun t => t = c || r.subsumes (typeExpression t) (.concept c)) = true →
      Q x ⟨x, .iri Rdf.type, c⟩
  along : ∀ {p x v : Term} {vs : List Term} {t : Triple}, r.values? p x = some vs → v ∈ vs →
    Q v t → Q x t

namespace Evidence

/-! ## Memories of good verdicts -/

/-- Each verdict that is kept has statements of a property. -/
def Memo.Holds (m : Memo) (Q : Term → Triple → Prop) : Prop :=
  ∀ p verdict, m.known p = some (.finished verdict) → Finding.All (Q p.2) verdict.toOption

namespace Memo.Holds

variable {m : Memo} {Q : Term → Triple → Prop}

theorem empty : Memo.empty.Holds Q := by
  intro p verdict hp
  rw [known_empty] at hp
  exact absurd hp (by simp)

theorem start (h : m.Holds Q) (p : Expression × Term) : (m.start p).Holds Q := by
  intro q verdict hq
  rw [known_start] at hq
  by_cases heq : q = p
  · rw [if_pos heq] at hq
    exact absurd hq (by simp)
  · rw [if_neg heq] at hq
    exact h q _ hq

theorem finish {e : Expression} {x : Term} {verdict : Verdict} (h : m.Holds Q)
    (hverdict : Finding.All (Q x) verdict.toOption) : (m.finish e x verdict).Holds Q := by
  intro q other hq
  rw [known_finish] at hq
  by_cases heq : q = (e, x)
  · subst heq
    rw [if_pos rfl] at hq
    obtain rfl := Entry.finished.inj (Option.some.inj hq)
    exact hverdict
  · rw [if_neg heq] at hq
    exact h q _ hq

end Memo.Holds

/-! ## What computations yield -/

/-- Started with a memory of good verdicts, the computation gives what it should and leaves such a
memory. -/
def Yields {α : Type} (Q : Term → Triple → Prop) (P : α → Prop) (x : Recall α) : Prop :=
  ∀ m : Memo, m.Holds Q → P (x m).1 ∧ (x m).2.Holds Q

section Yields

variable {Q : Term → Triple → Prop} {R : Triple → Prop}

theorem yields_pure {α : Type} {P : α → Prop} {a : α} (h : P a) : Yields Q P (pure a) := by
  intro m hm
  exact ⟨h, hm⟩

theorem yields_bind {α β : Type} {P : α → Prop} {P' : β → Prop} {x : Recall α} {f : α → Recall β}
    (hx : Yields Q P x) (hf : ∀ a, P a → Yields Q P' (f a)) : Yields Q P' (x >>= f) := by
  intro m hm
  obtain ⟨ha, hm'⟩ := hx m hm
  exact hf _ ha _ hm'

theorem Yields.mono {α : Type} {P P' : α → Prop} {x : Recall α} (h : Yields Q P x)
    (hP : ∀ a, P a → P' a) : Yields Q P' x := by
  intro m hm
  obtain ⟨ha, hm'⟩ := h m hm
  exact ⟨hP _ ha, hm'⟩

theorem yields_findAll {works : List (Recall Finding)}
    (h : ∀ work ∈ works, Yields Q (Finding.All R) work) :
    Yields Q (Finding.All R) (findAll works) := by
  induction works with
  | nil => exact yields_pure .nil
  | cons work works ih =>
    apply yields_bind (h work List.mem_cons_self)
    intro finding hfinding
    cases finding with
    | none => exact yields_pure .none
    | some found =>
      apply yields_bind (ih fun other ho => h other (List.mem_cons_of_mem _ ho))
      intro more hmore
      exact yields_pure (hmore.map_union hfinding)

theorem yields_findEach {works : List (Recall Finding)}
    (h : ∀ work ∈ works, Yields Q (Finding.All R) work) :
    Yields Q (fun findings => ∀ finding ∈ findings, Finding.All R finding) (findEach works) := by
  induction works with
  | nil => exact yields_pure (by simp)
  | cons work works ih =>
    apply yields_bind (h work List.mem_cons_self)
    intro finding hfinding
    apply yields_bind (ih fun other ho => h other (List.mem_cons_of_mem _ ho))
    intro findings hfindings
    exact yields_pure (List.forall_mem_cons.mpr ⟨hfinding, hfindings⟩)

theorem yields_findFirst {f : Term → Recall Finding} {vs : List Term}
    (h : ∀ v ∈ vs, Yields Q (Finding.All R) (f v)) :
    Yields Q (fun first => ∀ pair ∈ first, pair.1 ∈ vs ∧ ∀ t ∈ pair.2, R t) (findFirst f vs) := by
  induction vs with
  | nil => exact yields_pure (by simp)
  | cons v vs ih =>
    apply yields_bind (h v List.mem_cons_self)
    intro finding hfinding
    cases finding with
    | some found =>
      apply yields_pure
      intro pair hpair
      obtain rfl := Option.some.inj hpair
      exact ⟨List.mem_cons_self, hfinding⟩
    | none =>
      apply (ih fun w hw => h w (List.mem_cons_of_mem _ hw)).mono
      intro first hfirst pair hpair
      obtain ⟨hmem, hfound⟩ := hfirst pair hpair
      exact ⟨List.mem_cons_of_mem _ hmem, hfound⟩

/-! ## Rounds and translations -/

variable {r : Reasoner} {x : Term}

theorem yields_withValues {p : Term} {next : List Term → Recall Finding}
    (h : ∀ vs, r.values? p x = some vs → Yields Q (Finding.All R) (next vs)) :
    Yields Q (Finding.All R) (r.withValues p x next) := by
  unfold Reasoner.withValues
  cases hvs : r.values? p x with
  | some vs => exact h vs hvs
  | none => exact yields_pure .none

/-- The edges to asserted values have the property, however many are asked for. -/
theorem yields_edges (hQ : r.Grounded Q) {p : Term} {vs : List Term}
    (hvs : r.values? p x = some vs) (fails : Prop) [Decidable fails] :
    Yields Q (Finding.All (Q x)) (pure <|
      if fails then none else some (Distinct.dedup (vs.map (⟨x, p, ·⟩)))) := by
  apply yields_pure
  split
  · exact .none
  · intro t ht
    obtain ⟨v, hv, rfl⟩ := List.mem_map.mp (Distinct.mem_dedup.mp ht)
    exact hQ.edge hvs hv

theorem yields_inClass (hQ : r.Grounded Q) {c : Term} {unfold : Expression → Recall Finding}
    (h : ∀ d, r.Definition (.concept c) d → Yields Q (Finding.All (Q x)) (unfold d)) :
    Yields Q (Finding.All (Q x)) (r.inClass unfold c x) := by
  unfold Reasoner.inClass
  split
  -- of a literal nothing is stated
  · apply yields_pure
    split
    · exact .nil
    · exact .none
  · rename_i hliteral
    have hx : x.isIndividual = true := by
      cases x with
      | literal l => exact absurd rfl (hliteral l)
      | iri i => rfl
      | blank b => rfl
    split
    · exact yields_pure .none
    · rename_i types htypes
      dsimp only
      split
      · exact yields_pure .none
      · apply yields_findAll
        rw [List.forall_mem_cons, List.forall_mem_map]
        constructor
        · apply yields_pure
          rw [Finding.All.some_iff]
          split
          · rename_i hmember
            simpa using hQ.membership hx htypes hmember
          · simp
        · intro d hd
          rcases List.mem_append.mp hd with hd | hd
          · exact h d (.superClass hd)
          · exact h d (.equivalent hd)

/-- A round yields good statements when its questions do. -/
theorem yields_round (hQ : r.Grounded Q) {ask unfold : Expression → Term → Recall Finding}
    {e : Expression}
    (hask : ∀ e' x', r.Part e x e' x' → Yields Q (Finding.All (Q x')) (ask e' x'))
    (hunfold : ∀ d, r.Definition e d → Yields Q (Finding.All (Q x)) (unfold d x)) :
    Yields Q (Finding.All (Q x)) (r.round ask unfold e x) := by
  cases e with
  | top => exact yields_pure .nil
  | bottom => exact yields_pure .none
  | valueOf p v => exact yields_pure .nil
  | nominal a => exact yields_pure .nil
  | concept c => exact yields_inClass hQ hunfold
  | conj parts =>
    apply yields_findAll
    rw [List.forall_mem_map]
    intro e he
    exact hask e x (.conj he)
  | disj branches =>
    have hbranches : ∀ work ∈ branches.map (ask · x), Yields Q (Finding.All (Q x)) work := by
      rw [List.forall_mem_map]
      intro e he
      exact hask e x (.disj he)
    apply yields_bind (yields_findEach hbranches)
    intro findings hfindings
    apply yields_pure
    split
    · intro t ht
      obtain ⟨finding, hfinding, ht⟩ := Finding.mem_union.mp ht
      exact hfindings finding hfinding t ht
    · exact .none
  | compl part =>
    -- what was found about the part is dropped
    apply yields_bind (hask part x .compl)
    intro finding _
    apply yields_pure
    split
    · exact .none
    · exact .nil
  | someOf p filler =>
    apply yields_withValues
    intro vs hvs
    have hvalues : ∀ v ∈ vs, Yields Q (Finding.All (Q x)) (ask filler v) := by
      intro v hv
      exact (hask filler v (.someOf hvs hv)).mono fun _ h => h.mono fun _ => hQ.along hvs hv
    apply yields_bind (yields_findFirst hvalues)
    intro first hfirst
    apply yields_pure
    cases first with
    | none => exact .none
    | some pair =>
      obtain ⟨hv, hfound⟩ := hfirst pair rfl
      intro t ht
      rcases Distinct.mem_union.mp ht with ht | ht
      · rw [List.mem_singleton.mp ht]
        exact hQ.edge hvs hv
      · exact hfound t ht
  | onlyOf p filler =>
    apply yields_withValues
    intro vs hvs
    have hvalues : ∀ work ∈ vs.map (ask filler), Yields Q (Finding.All (Q x)) work := by
      rw [List.forall_mem_map]
      intro v hv
      exact (hask filler v (.onlyOf hvs hv)).mono fun _ h => h.mono fun _ => hQ.along hvs hv
    apply yields_bind (yields_findEach hvalues)
    intro findings hfindings
    apply yields_pure
    split
    · intro t ht
      obtain ⟨⟨v, finding⟩, hpair, found, rfl, ht⟩ := Finding.mem_ofValues.mp ht
      obtain ⟨hv, hfinding⟩ := List.of_mem_zip hpair
      rcases ht with rfl | ht
      · exact hQ.edge hvs hv
      · exact hfindings _ hfinding t ht
    · exact .none
  | atLeast p n => exact yields_withValues fun _ hvs => yields_edges hQ hvs _
  | atMost p n => exact yields_withValues fun _ hvs => yields_edges hQ hvs _
  | exactly p n => exact yields_withValues fun _ hvs => yields_edges hQ hvs _
  | selfOf p =>
    apply yields_withValues
    intro vs hvs
    apply yields_pure
    split
    · rename_i hx
      rw [Finding.All.some_iff]
      simpa using hQ.edge hvs hx
    · exact .none

/-- A look-up yields good statements when its work does. -/
theorem yields_memoised {e : Expression} {work : Work}
    (h : Yields Q (Finding.All (Q x)) (outcome work)) :
    Yields Q (Finding.All (Q x)) (outcome (memoised e x work)) := by
  intro m hm
  cases hknown : m.known (e, x) with
  | none =>
    rw [outcome, memoised_of_none hknown]
    obtain ⟨hfinding, hm'⟩ := h (m.start (e, x)) (hm.start (e, x))
    exact ⟨hfinding, hm'.finish hfinding⟩
  | some entry =>
    cases entry with
    | inProgress =>
      rw [outcome, memoised_of_inProgress hknown]
      exact ⟨.nil, hm⟩
    | finished verdict =>
      rw [outcome, memoised_of_finished hknown]
      exact ⟨hm _ verdict hknown, hm⟩

/-- Every translation yields good statements. -/
theorem yields_translateWithin (hQ : r.Grounded Q) (depth : Nat) (path : ClassPath)
    (e : Expression) (x : Term) :
    Yields Q (Finding.All (Q x)) (outcome (translateWithin r depth path e x)) := by
  induction depth, e, x using translateWithin_induction r generalizing path with
  | round depth e x hpart hdefinition =>
    obtain ⟨work, hwork, hround⟩ := translateWithin_eq r depth path e x
    rw [hwork]
    apply yields_memoised
    rw [hround]
    apply yields_round hQ
    · intro e' x' h
      exact hpart e' x' h path
    · intro d h
      -- without depth left nothing is found
      cases depth with
      | zero => exact yields_pure .nil
      | succ below => exact hdefinition below d rfl h _

end Yields

end Evidence

namespace Translator

variable {r : Reasoner} {Q : Term → Triple → Prop}

/-- After any history each verdict that is kept has good statements. -/
theorem holds_run (hQ : r.Grounded Q) {τ : Translator} (h : τ.memo.Holds Q)
    (calls : List (Expression × Term)) : (τ.run r calls).memo.Holds Q := by
  induction calls generalizing τ with
  | nil => exact h
  | cons p calls ih =>
    have hcall := yields_translateWithin hQ r.definedPairs τ.path p.1 p.2 τ.memo h
    exact ih hcall.2

end Translator

/-! ## Assertions behind statements -/

/-- Asserted edges lead from a term to another. -/
def Store.Leads (s : Store) : Term → Term → Prop :=
  Relation.ReflTransGen fun a b => ∃ p, ⟨a, p, b⟩ ∈ s.triples

namespace Knowledge

variable {k : Knowledge} {x : Term}

/-- A statement found about an individual stands on what is asserted. -/
structure Backs (k : Knowledge) (x : Term) (t : Triple) : Prop where
  /-- It is an edge of the store, or a membership by an asserted type. -/
  told : t ∈ k.store.triples ∨ t.predicate = .iri Rdf.type ∧ k.IsMember t.subject t.object
  isIndividual : t.subject.isIndividual = true
  reached : k.store.Leads x t.subject

theorem mem_triples_of_values? {p v : Term} {vs : List Term} (hvs : k.values? p x = some vs)
    (hv : v ∈ vs) : x.isIndividual = true ∧ ⟨x, p, v⟩ ∈ k.store.triples := by
  unfold values? at hvs
  split at hvs
  · rename_i hx
    split at hvs
    · obtain rfl := Option.some.inj hvs
      obtain ⟨t, ht, rfl⟩ := List.mem_map.mp hv
      rw [List.mem_filter, decide_eq_true_eq] at ht
      obtain ⟨ht, rfl, rfl⟩ := ht
      exact ⟨hx, ht⟩
    · exact absurd hvs (by simp)
  · obtain rfl := Option.some.inj hvs
    exact absurd hv (by simp)

/-- Rounds over a store establish that statements stand on what is asserted. -/
theorem grounded_backs (k : Knowledge) : k.reasoner.Grounded k.Backs where
  edge := by
    intro p x v vs hvs hv
    rw [reasoner_values?] at hvs
    obtain ⟨hx, hedge⟩ := mem_triples_of_values? hvs hv
    exact ⟨Or.inl hedge, hx, .refl⟩
  membership := by
    intro x c types hx htypes hmember
    have hasserted : types = k.store.types x := by
      change k.ifMentioned x (k.store.types x) = .ok types at htypes
      unfold ifMentioned at htypes
      split at htypes
      · exact (Except.ok.inj htypes).symm
      · exact absurd htypes (by simp)
    subst hasserted
    exact ⟨Or.inr ⟨rfl, isMember_iff.mp hmember⟩, hx, .refl⟩
  along := by
    intro p x v vs t hvs hv ht
    rw [reasoner_values?] at hvs
    obtain ⟨-, hedge⟩ := mem_triples_of_values? hvs hv
    exact ⟨ht.told, ht.isIndividual, .head ⟨p, hedge⟩ ht.reached⟩

end Knowledge

/-- Translation invents no fact: after any history, each statement found about an individual is
asserted or a membership by an asserted type, and its subject is an individual that asserted edges
lead to. -/
theorem backs_of_translate (k : Knowledge) (calls : List (Expression × Term)) (e : Expression)
    (x : Term) (statements : List Triple)
    (h : ((Translator.after k.reasoner calls).translate k.reasoner e x).1 = .ok statements) :
    ∀ t ∈ statements, k.Backs x t := by
  have hmemo : (Translator.after k.reasoner calls).memo.Holds k.Backs :=
    Translator.holds_run k.grounded_backs Memo.Holds.empty calls
  obtain ⟨hfound, -⟩ := yields_translateWithin k.grounded_backs k.reasoner.definedPairs
    (Translator.after k.reasoner calls).path e x _ hmemo
  change Finding.All (k.Backs x)
    ((Translator.after k.reasoner calls).translate k.reasoner e x).1.toOption at hfound
  rw [h] at hfound
  exact hfound

/-! ### A membership that is kept

A is equivalent to B, and z is an A with y under q. The first call meets A again while A is in
progress; the second one finds the verdict about A in the memory, and that z is a B by its type. -/

namespace KeptMembership

def triples : List Triple :=
  [⟨.iri ⟨"A"⟩, .iri Owl.equivalentClass, .iri ⟨"B"⟩⟩, ⟨.iri ⟨"z"⟩, .iri Rdf.type, .iri ⟨"A"⟩⟩,
    ⟨.iri ⟨"z"⟩, .iri ⟨"q"⟩, .iri ⟨"y"⟩⟩, ⟨.iri ⟨"y"⟩, .iri ⟨"q"⟩, .iri ⟨"w"⟩⟩]

def knowledge : Knowledge := ⟨.ofList triples, 2⟩

def call : Expression × Term := (.concept (.iri ⟨"A"⟩), .iri ⟨"z"⟩)

/-- An A with something under q that has something under q. -/
def chained : Expression := .conj [call.1, .someOf (.iri ⟨"q"⟩) (.someOf (.iri ⟨"q"⟩) .top)]

def found : List Triple :=
  [⟨.iri ⟨"z"⟩, .iri Rdf.type, .iri ⟨"A"⟩⟩, ⟨.iri ⟨"z"⟩, .iri Rdf.type, .iri ⟨"B"⟩⟩,
    ⟨.iri ⟨"z"⟩, .iri ⟨"q"⟩, .iri ⟨"y"⟩⟩, ⟨.iri ⟨"y"⟩, .iri ⟨"q"⟩, .iri ⟨"w"⟩⟩]

/-- Every A is a B by the told hierarchy. -/
theorem subsumes_A : knowledge.subsumes (.concept (.iri ⟨"A"⟩)) (.concept (.iri ⟨"B"⟩)) = true := by
  have htold : .iri ⟨"B"⟩ ∈ knowledge.store.toldSupers (.iri ⟨"A"⟩) :=
    Store.mem_toldSupers_of_mem_nextSupers (Store.self_mem_toldSupers _ _) (by decide)
  exact Store.entails_of_mem_toldSupers List.not_mem_nil htold

/-- The same reasoner, with that answer given and classes read by name. -/
def reasoner : Reasoner :=
  { knowledge.byName with
    subsumes := fun sub sup =>
      if sub = .concept (.iri ⟨"A"⟩) ∧ sup = .concept (.iri ⟨"B"⟩) then true
      else knowledge.subsumes sub sup }

theorem reasoner_eq : knowledge.reasoner = reasoner := by
  have hsubsumes : knowledge.subsumes = reasoner.subsumes := by
    funext sub sup
    dsimp only [reasoner]
    split
    · rename_i h
      obtain ⟨rfl, rfl⟩ := h
      exact subsumes_A
    · rfl
  have htriples : knowledge.store.triples = triples := by
    rw [knowledge, Store.ofList, Store.triples_insertAll]
    decide
  have hnamed : knowledge.reasoner = knowledge.byName := by
    apply Knowledge.reasoner_eq_byName
    rw [htriples]
    decide
  calc knowledge.reasoner = { knowledge.byName with subsumes := knowledge.subsumes } := hnamed
    _ = reasoner := by rw [hsubsumes]; rfl

theorem toOption_translate_chained :
    ((Translator.after knowledge.reasoner [call]).translate knowledge.reasoner chained
      (.iri ⟨"z"⟩)).1.toOption = some found := by
  rw [reasoner_eq]
  rfl

/-- That z is a B is not asserted, and that y has w is not said of z. -/
theorem backs_found :
    (Translator.after knowledge.reasoner [call]).memo.cycles = 1 ∧
      ((Translator.after knowledge.reasoner [call]).translate knowledge.reasoner chained
        (.iri ⟨"z"⟩)).1 = .ok found ∧
      ∀ t ∈ found, knowledge.Backs (.iri ⟨"z"⟩) t := by
  have hcycles : (Translator.after knowledge.reasoner [call]).memo.cycles = 1 := by
    rw [reasoner_eq]
    rfl
  have hfound := toOption_translate_chained
  cases hverdict : ((Translator.after knowledge.reasoner [call]).translate knowledge.reasoner
      chained (.iri ⟨"z"⟩)).1 with
  | error failure =>
    rw [hverdict] at hfound
    exact absurd hfound (by simp [Except.toOption])
  | ok statements =>
    rw [hverdict] at hfound
    obtain rfl : statements = found := Option.some.inj hfound
    exact ⟨hcycles, rfl, backs_of_translate knowledge [call] chained _ _ hverdict⟩

end KeptMembership

end GraphConformance
