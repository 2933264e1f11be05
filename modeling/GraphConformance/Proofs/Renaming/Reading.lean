import GraphConformance.Proofs.Renaming.Stores
import GraphConformance.Turtle.Grammar

/-!
# Reading from another number on

A reader numbers the blank nodes that it makes one after the other. From a state that counts from
another number on, and is renamed accordingly, reading the same text goes the same way: it accepts
or halts alike, makes the nodes in the same order, and leaves the renamed triples. Nothing that a
reader looks at depends on the number of a node.

`State.Renamed` relates the two states; it also says that all nodes met so far are numbered below
the next one, so that the numbers of one document lie between the two ends of its reading. It is
kept by every way of making a node (`Made`) and, production by production, by the grammar
(`readingsAlike_readTerm` up to `renamed_readEntries`).
-/

set_option autoImplicit false

namespace GraphConformance

open Text Vocabulary

/-- The term is no blank node with this number or a higher one. -/
def Term.NumberedBelow (n : Nat) (x : Term) : Prop := ∀ b, x = .blank b → b.id < n

/-- All blank nodes of the triple are numbered below `n`. -/
structure Triple.NumberedBelow (n : Nat) (t : Triple) : Prop where
  subject : t.subject.NumberedBelow n
  predicate : t.predicate.NumberedBelow n
  object : t.object.NumberedBelow n

theorem Term.NumberedBelow.mono {n m : Nat} {x : Term} (h : x.NumberedBelow n) (hle : n ≤ m) :
    x.NumberedBelow m :=
  fun b hb => Nat.lt_of_lt_of_le (h b hb) hle

theorem Triple.NumberedBelow.mono {n m : Nat} {t : Triple} (h : t.NumberedBelow n) (hle : n ≤ m) :
    t.NumberedBelow m :=
  ⟨h.subject.mono hle, h.predicate.mono hle, h.object.mono hle⟩

theorem Term.numberedBelow_iri (n : Nat) (i : Iri) : (Term.iri i).NumberedBelow n :=
  fun _ h => nomatch h

theorem Term.numberedBelow_literal (n : Nat) (l : Literal) : (Term.literal l).NumberedBelow n :=
  fun _ h => nomatch h

namespace Turtle

/-! ## States -/

/-- The second state is the first renamed, and so are the nodes that it will make; all nodes of the
first are numbered below its next one. -/
structure State.Renamed (f : BlankNode → BlankNode) (st st' : State) : Prop where
  prefixes : st'.prefixes = st.prefixes
  base : st'.base = st.base
  labels : st.labels.Renamed id (fun b b' => b' = f b) st'.labels
  next : ∀ k label, f ⟨st.nextBlank + k, label⟩ = ⟨st'.nextBlank + k, label⟩
  store : st.store.Renamed f st'.store
  labels_below : ∀ name b, st.labels.get? name = some b → b.id < st.nextBlank
  store_below : ∀ t ∈ st.store.triples, t.NumberedBelow st.nextBlank

/-- The second term is the first renamed, and the first is numbered below `n`. -/
structure TermsAlike (f : BlankNode → BlankNode) (n : Nat) (x x' : Term) : Prop where
  rename : x' = x.rename f
  below : x.NumberedBelow n

theorem TermsAlike.mono {f : BlankNode → BlankNode} {n m : Nat} {x x' : Term}
    (h : TermsAlike f n x x') (hle : n ≤ m) : TermsAlike f m x x' :=
  ⟨h.rename, h.below.mono hle⟩

theorem termsAlike_iri (f : BlankNode → BlankNode) (n : Nat) (i : Iri) :
    TermsAlike f n (.iri i) (.iri i) :=
  ⟨rfl, Term.numberedBelow_iri n i⟩

theorem termsAlike_literal (f : BlankNode → BlankNode) (n : Nat) (l : Literal) :
    TermsAlike f n (.literal l) (.literal l) :=
  ⟨rfl, Term.numberedBelow_literal n l⟩

/-- What is made from a state and from a renamed one: renamed states that count on from `n`, and
values that are related. -/
structure Made (f : BlankNode → BlankNode) (n : Nat) {α : Type} (A : Nat → α → α → Prop)
    (made made' : State × α) : Prop where
  state : made.1.Renamed f made'.1
  le : n ≤ made.1.nextBlank
  value : A made.1.nextBlank made.2 made'.2

namespace State.Renamed

variable {ρ : BlankNode ↪ BlankNode} {st st' : State} (h : st.Renamed ρ st')

include h

theorem resolveText (text : String) : st'.resolveText text = st.resolveText text := by
  rw [State.resolveText, State.resolveText, h.base]

theorem resolve (r : Reference) : st'.resolve r = st.resolve r := by
  cases r with
  | bracketed text => rw [State.resolve, State.resolve, h.resolveText]
  | named label suffix =>
    rw [State.resolve, State.resolve, State.resolveName, State.resolveName, h.prefixes]

theorem declare (label space : String) :
    (st.declare label space).Renamed ρ (st'.declare label space) :=
  { h with prefixes := congrArg (·.insert label space) h.prefixes }

theorem declareAll (names : List (String × String)) :
    (st.declareAll names).Renamed ρ (st'.declareAll names) := by
  induction names generalizing st st' with
  | nil => exact h
  | cons name names ih => exact ih (h.declare name.1 name.2)

/-- The next node is made on both sides. -/
theorem made (label : Option String) :
    TermsAlike ρ (st.nextBlank + 1) (.blank ⟨st.nextBlank, label⟩)
      (.blank ⟨st'.nextBlank, label⟩) := by
  refine ⟨congrArg Term.blank (h.next 0 label).symm, ?_⟩
  rintro b hb
  obtain rfl := Term.blank.inj hb
  exact Nat.lt_succ_self _

theorem next_succ (k : Nat) (label : Option String) :
    ρ ⟨st.nextBlank + 1 + k, label⟩ = ⟨st'.nextBlank + 1 + k, label⟩ := by
  rw [Nat.add_assoc, Nat.add_assoc, h.next]

theorem freshBlank : Made ρ st.nextBlank (TermsAlike ρ) st.freshBlank st'.freshBlank where
  state :=
    { h with
      next := h.next_succ
      labels_below := fun name b hb => Nat.lt_succ_of_lt (h.labels_below name b hb)
      store_below := fun t ht => (h.store_below t ht).mono (Nat.le_succ _) }
  le := Nat.le_succ _
  value := h.made none

theorem labelledBlank (label : String) :
    Made ρ st.nextBlank (TermsAlike ρ) (st.labelledBlank label) (st'.labelledBlank label) := by
  have hlabel := h.labels.get? Function.injective_id label
  rw [id_eq] at hlabel
  rw [State.labelledBlank, State.labelledBlank]
  cases hknown : st.labels.get? label with
  | some b =>
    -- met before: its node was made by both, and no other one is
    rw [hknown] at hlabel
    cases hknown' : st'.labels.get? label with
    | none => rw [hknown'] at hlabel; cases hlabel
    | some b' =>
      rw [hknown'] at hlabel
      cases hlabel with
      | some hb =>
        refine ⟨h, Nat.le_refl _, ⟨congrArg Term.blank hb, ?_⟩⟩
        rintro c hc
        obtain rfl := Term.blank.inj hc
        exact h.labels_below label _ hknown
  | none =>
    rw [hknown] at hlabel
    cases hknown' : st'.labels.get? label with
    | some b' => rw [hknown'] at hlabel; cases hlabel
    | none =>
      refine ⟨?_, Nat.le_succ _, h.made (some label)⟩
      exact
        { h with
          labels := h.labels.insert Function.injective_id label (h.next 0 (some label)).symm
          next := h.next_succ
          labels_below := by
            intro name b hb
            rcases Table.get?_insert_eq_some_iff.mp hb with ⟨-, rfl⟩ | ⟨-, hb⟩
            · exact Nat.lt_succ_self _
            · exact Nat.lt_succ_of_lt (h.labels_below name b hb)
          store_below := fun t ht => (h.store_below t ht).mono (Nat.le_succ _) }

theorem addTriple {x p o x' p' o' : Term} (hx : TermsAlike ρ st.nextBlank x x')
    (hp : TermsAlike ρ st.nextBlank p p') (ho : TermsAlike ρ st.nextBlank o o') :
    (st.addTriple x p o).Renamed ρ (st'.addTriple x' p' o') :=
  { h with
    store := by
      rw [hx.rename, hp.rename, ho.rename]
      exact h.store.insert ⟨x, p, o⟩
    store_below := by
      intro t ht
      change t ∈ (st.store.insert ⟨x, p, o⟩).triples at ht
      rw [Store.triples_insert, Distinct.mem_insertLast] at ht
      rcases ht with ht | rfl
      · exact h.store_below t ht
      · exact ⟨hx.below, hp.below, ho.below⟩ }

/-- An atom stands for the renamed term, or has the same error. -/
theorem place (atom : Atom) :
    Made ρ st.nextBlank (fun n => EndAlike Eq (TermsAlike ρ n)) (st.place atom)
      (st'.place atom) := by
  cases atom with
  | reference r =>
    refine ⟨h, Nat.le_refl _, ?_⟩
    change EndAlike Eq _ ((st.resolve r).map Term.iri) ((st'.resolve r).map Term.iri)
    rw [h.resolve]
    cases st.resolve r with
    | error halt => exact .error rfl
    | ok i => exact .ok (termsAlike_iri ρ _ i)
  | label name =>
    obtain ⟨hst, hle, hvalue⟩ := h.labelledBlank (String.ofList name)
    exact ⟨hst, hle, .ok hvalue⟩
  | literal l => exact ⟨h, Nat.le_refl _, .ok (termsAlike_literal ρ _ l)⟩
  | typed value datatype =>
    refine ⟨h, Nat.le_refl _, ?_⟩
    change EndAlike Eq _ ((st.resolve datatype).map _) ((st'.resolve datatype).map _)
    rw [h.resolve]
    cases st.resolve datatype with
    | error halt => exact .error rfl
    | ok d => exact .ok (termsAlike_literal ρ _ _)

theorem addList {items items' : List Term}
    (hitems : List.Forall₂ (TermsAlike ρ st.nextBlank) items items') :
    Made ρ st.nextBlank (TermsAlike ρ) (st.addList items) (st'.addList items') := by
  induction hitems with
  | nil => exact ⟨h, Nat.le_refl _, termsAlike_iri ρ _ Rdf.nil⟩
  | @cons item item' items items' hitem _ ih =>
    rw [State.addList, State.addList]
    generalize st.addList items = made at ih ⊢
    generalize st'.addList items' = made' at ih ⊢
    obtain ⟨st₁, next⟩ := made
    obtain ⟨st₁', next'⟩ := made'
    obtain ⟨hst₁, hle₁, hnext⟩ := ih
    obtain ⟨hst₂, hle₂, hcell⟩ := hst₁.freshBlank
    have hle := Nat.le_trans hle₁ hle₂
    have hfirst := hst₂.addTriple hcell (termsAlike_iri ρ _ Rdf.first) (hitem.mono hle)
    exact ⟨hfirst.addTriple hcell (termsAlike_iri ρ _ Rdf.rest) (hnext.mono hle₂), hle, hcell⟩

end State.Renamed

/-! ## The grammar -/

/-- Two readings of a text that count on from `n` and leave renamed states: both halt in the same
way, or both leave the same rest and related values. -/
inductive ReadingsAlike (f : BlankNode → BlankNode) (n : Nat) {s : List Char} {α : Type}
    (A : Nat → α → α → Prop) : Reading s α → Reading s α → Prop
  | ok {st st' : State} {a a' : α} (r : Shorter s) (hst : st.Renamed f st')
    (hle : n ≤ st.nextBlank) (ha : A st.nextBlank a a') :
    ReadingsAlike f n A ⟨st, .ok (a, r)⟩ ⟨st', .ok (a', r)⟩
  | error {st st' : State} (halt : Halt) (hst : st.Renamed f st') (hle : n ≤ st.nextBlank) :
    ReadingsAlike f n A ⟨st, .error halt⟩ ⟨st', .error halt⟩

/-- Readings without a value. -/
abbrev SilentlyAlike (f : BlankNode → BlankNode) (n : Nat) {s : List Char} :
    Reading s Unit → Reading s Unit → Prop :=
  ReadingsAlike f n fun _ _ _ => True

section Grammar

variable {ρ : BlankNode ↪ BlankNode}

/-- Readings from renamed states that end in the same way. -/
theorem ReadingsAlike.same {st st' : State} {n : Nat} {s : List Char} (hst : st.Renamed ρ st')
    (hle : n ≤ st.nextBlank) (result : Except Halt (Unit × Shorter s)) :
    SilentlyAlike ρ n ⟨st, result⟩ ⟨st', result⟩ := by
  cases result with
  | error halt => exact .error halt hst hle
  | ok answer => exact .ok answer.2 hst hle trivial

mutual

theorem readingsAlike_readTerm {st st' : State} (h : st.Renamed ρ st') (s : List Char) :
    ReadingsAlike ρ st.nextBlank (TermsAlike ρ) (readTerm st s) (readTerm st' s) := by
  rw [readTerm, readTerm]
  cases hbracket : mark? '[' s with
  | some r =>
    -- a property list: its node is made before what is inside
    have hlt : (skip r.1).length < s.length := r.skip.2
    have hmade := h.freshBlank
    dsimp only
    generalize st.freshBlank = made at hmade ⊢
    generalize st'.freshBlank = made' at hmade ⊢
    obtain ⟨st₁, node⟩ := made
    obtain ⟨st₁', node'⟩ := made'
    obtain ⟨hst₁, hle₁, hnode⟩ := hmade
    dsimp only at hst₁ hle₁ hnode ⊢
    cases mark? ']' (skip r.1) with
    | some q => exact .ok _ hst₁ hle₁ hnode
    | none =>
      have hinside := readingsAlike_readPredicates hst₁ hnode (skip r.1)
      dsimp only
      generalize readPredicates st₁ node (skip r.1) = inside at hinside ⊢
      generalize readPredicates st₁' node' (skip r.1) = inside' at hinside ⊢
      cases hinside with
      | error halt hst₂ hle₂ => exact .error halt hst₂ (Nat.le_trans hle₁ hle₂)
      | ok q hst₂ hle₂ _ =>
        dsimp only
        cases expect ']' .closingBracket (r.skip.trans q).skip with
        | error halt => exact .error halt hst₂ (Nat.le_trans hle₁ hle₂)
        | ok answer => exact .ok _ hst₂ (Nat.le_trans hle₁ hle₂) (hnode.mono hle₂)
  | none =>
    dsimp only
    cases hparen : mark? '(' s with
    | some r =>
      -- a list: its cells are made after all items
      have hlt : (skip r.1).length < s.length := r.skip.2
      have hinside := readingsAlike_readItems h (skip r.1)
      dsimp only
      generalize readItems st (skip r.1) = inside at hinside ⊢
      generalize readItems st' (skip r.1) = inside' at hinside ⊢
      cases hinside with
      | error halt hst₁ hle₁ => exact .error halt hst₁ hle₁
      | ok q hst₁ hle₁ hitems =>
        obtain ⟨hst₂, hle₂, hhead⟩ := hst₁.addList hitems
        exact .ok _ hst₂ (Nat.le_trans hle₁ hle₂) hhead
    | none =>
      dsimp only
      cases readAtom s with
      | error halt => exact .error halt h (Nat.le_refl _)
      | ok answer =>
        obtain ⟨atom, r⟩ := answer
        have hplaced := h.place atom
        dsimp only
        generalize st.place atom = placed at hplaced ⊢
        generalize st'.place atom = placed' at hplaced ⊢
        obtain ⟨st₁, result⟩ := placed
        obtain ⟨st₁', result'⟩ := placed'
        obtain ⟨hst₁, hle₁, hresult⟩ := hplaced
        dsimp only at hst₁ hle₁ hresult
        cases hresult with
        | error hhalt =>
          subst hhalt
          exact .error _ hst₁ hle₁
        | ok hterm => exact .ok r hst₁ hle₁ hterm
termination_by (s.length, 0)

theorem readingsAlike_readItems {st st' : State} (h : st.Renamed ρ st') (s : List Char) :
    ReadingsAlike ρ st.nextBlank (fun n => List.Forall₂ (TermsAlike ρ n)) (readItems st s)
      (readItems st' s) := by
  rw [readItems, readItems]
  cases mark? ')' s with
  | some r => exact .ok r h (Nat.le_refl _) .nil
  | none =>
    have hitem := readingsAlike_readTerm h s
    dsimp only
    generalize readTerm st s = item at hitem ⊢
    generalize readTerm st' s = item' at hitem ⊢
    cases hitem with
    | error halt hst₁ hle₁ => exact .error halt hst₁ hle₁
    | ok r hst₁ hle₁ hterm =>
      have hlt : (skip r.1).length < s.length := r.skip.2
      have hitems := readingsAlike_readItems hst₁ (skip r.1)
      dsimp only
      generalize readItems _ (skip r.1) = items at hitems ⊢
      generalize readItems _ (skip r.1) = items' at hitems ⊢
      cases hitems with
      | error halt hst₂ hle₂ => exact .error halt hst₂ (Nat.le_trans hle₁ hle₂)
      | ok q hst₂ hle₂ hmore =>
        exact .ok _ hst₂ (Nat.le_trans hle₁ hle₂) (.cons (hterm.mono hle₂) hmore)
termination_by (s.length, 1)

theorem readingsAlike_readPredicate {st st' : State} (h : st.Renamed ρ st') (s : List Char) :
    ReadingsAlike ρ st.nextBlank (TermsAlike ρ) (readPredicate st s) (readPredicate st' s) := by
  rw [readPredicate, readPredicate]
  cases typeShorthand? s with
  | some r => exact .ok r h (Nat.le_refl _) (termsAlike_iri ρ _ Rdf.type)
  | none =>
    have hterm := readingsAlike_readTerm h s
    dsimp only
    generalize readTerm st s = term at hterm ⊢
    generalize readTerm st' s = term' at hterm ⊢
    cases hterm with
    | error halt hst₁ hle₁ => exact .error halt hst₁ hle₁
    | @ok st₁ st₁' x x' r hst₁ hle₁ hterm =>
      have hiri : x'.isIri = x.isIri := by rw [hterm.rename, Term.isIri_rename]
      dsimp only
      rw [hiri]
      split
      · exact .ok r hst₁ hle₁ hterm
      · exact .error _ hst₁ hle₁
termination_by (s.length, 1)

theorem readingsAlike_readObjects {st st' : State} (h : st.Renamed ρ st') {x p x' p' : Term}
    (hx : TermsAlike ρ st.nextBlank x x') (hp : TermsAlike ρ st.nextBlank p p') (s : List Char) :
    SilentlyAlike ρ st.nextBlank (readObjects st x p s) (readObjects st' x' p' s) := by
  rw [readObjects, readObjects]
  have hobject := readingsAlike_readTerm h s
  generalize readTerm st s = object at hobject ⊢
  generalize readTerm st' s = object' at hobject ⊢
  cases hobject with
  | error halt hst₁ hle₁ => exact .error halt hst₁ hle₁
  | @ok st₁ st₁' o o' r hst₁ hle₁ ho =>
    have hadded := hst₁.addTriple (hx.mono hle₁) (hp.mono hle₁) ho
    dsimp only
    cases mark? ',' (skip r.1) with
    | none => exact .ok _ hadded hle₁ trivial
    | some q =>
      have hlt : (r.skip.trans q).skip.1.length < s.length := (r.skip.trans q).skip.2
      have hrest := readingsAlike_readObjects hadded (hx.mono hle₁) (hp.mono hle₁)
        (r.skip.trans q).skip.1
      dsimp only
      generalize readObjects (st₁.addTriple x p o) x p _ = rest at hrest ⊢
      generalize readObjects (st₁'.addTriple x' p' o') x' p' _ = rest' at hrest ⊢
      cases hrest with
      | error halt hst₂ hle₂ => exact .error halt hst₂ (Nat.le_trans hle₁ hle₂)
      | ok _ hst₂ hle₂ _ => exact .ok _ hst₂ (Nat.le_trans hle₁ hle₂) trivial
termination_by (s.length, 1)

theorem readingsAlike_readPredicates {st st' : State} (h : st.Renamed ρ st') {x x' : Term}
    (hx : TermsAlike ρ st.nextBlank x x') (s : List Char) :
    SilentlyAlike ρ st.nextBlank (readPredicates st x s) (readPredicates st' x' s) := by
  rw [readPredicates, readPredicates]
  have hpredicate := readingsAlike_readPredicate h s
  generalize readPredicate st s = predicate at hpredicate ⊢
  generalize readPredicate st' s = predicate' at hpredicate ⊢
  cases hpredicate with
  | error halt hst₁ hle₁ => exact .error halt hst₁ hle₁
  | @ok st₁ st₁' p p' r hst₁ hle₁ hp =>
    have hlt : (skip r.1).length < s.length := r.skip.2
    have hobjects := readingsAlike_readObjects hst₁ (hx.mono hle₁) hp (skip r.1)
    dsimp only
    generalize readObjects st₁ x p (skip r.1) = objects at hobjects ⊢
    generalize readObjects st₁' x' p' (skip r.1) = objects' at hobjects ⊢
    cases hobjects with
    | error halt hst₂ hle₂ => exact .error halt hst₂ (Nat.le_trans hle₁ hle₂)
    | @ok st₂ st₂' _ _ q hst₂ hle₂ _ =>
      have hle := Nat.le_trans hle₁ hle₂
      dsimp only
      cases mark? ';' (r.skip.trans q).skip.1 with
      | none => exact .ok _ hst₂ hle trivial
      | some z =>
        dsimp only
        -- semicolons in front of a closing mark end the list
        split
        · exact .ok _ hst₂ hle trivial
        · have hlt' : ((r.skip.trans q).skip.trans z).skipSemicolons.1.length < s.length :=
            ((r.skip.trans q).skip.trans z).skipSemicolons.2
          have hrest := readingsAlike_readPredicates hst₂ (hx.mono hle)
            ((r.skip.trans q).skip.trans z).skipSemicolons.1
          generalize readPredicates st₂ x _ = rest at hrest ⊢
          generalize readPredicates st₂' x' _ = rest' at hrest ⊢
          cases hrest with
          | error halt hst₃ hle₃ => exact .error halt hst₃ (Nat.le_trans hle hle₃)
          | ok _ hst₃ hle₃ _ => exact .ok _ hst₃ (Nat.le_trans hle hle₃) trivial
termination_by (s.length, 2)

end

/-- Declarations and the dots after them. -/
theorem SilentlyAlike.dotted {n : Nat} {s : List Char} {declaration declaration' : Reading s Unit} :
    SilentlyAlike ρ n declaration declaration' → SilentlyAlike ρ n
      (match declaration with
        | ⟨st, .error halt⟩ => (⟨st, .error halt⟩ : Reading s Unit)
        | ⟨st, .ok (_, r)⟩ => ⟨st, expect '.' .dotAfterDirective r.skip⟩)
      (match declaration' with
        | ⟨st, .error halt⟩ => ⟨st, .error halt⟩
        | ⟨st, .ok (_, r)⟩ => ⟨st, expect '.' .dotAfterDirective r.skip⟩) := by
  intro h
  cases h with
  | error halt hst hle => exact .error halt hst hle
  | ok r hst hle _ => exact .same hst hle _

section Declarations

variable {st st' : State} (h : st.Renamed ρ st')

include h

theorem silentlyAlike_readPrefixDeclaration {s : List Char} (r : Shorter s) :
    SilentlyAlike ρ st.nextBlank (readPrefixDeclaration st r) (readPrefixDeclaration st' r) := by
  rw [readPrefixDeclaration, readPrefixDeclaration]
  split
  · exact .error _ h (Nat.le_refl _)
  · dsimp only
    split
    · exact .error _ h (Nat.le_refl _)
    · rw [h.resolveText]
      exact .ok _ (h.declare _ _) (Nat.le_refl _) trivial

theorem silentlyAlike_readBaseDeclaration {s : List Char} (r : Shorter s) :
    SilentlyAlike ρ st.nextBlank (readBaseDeclaration st r) (readBaseDeclaration st' r) := by
  rw [readBaseDeclaration, readBaseDeclaration]
  split
  · exact .error _ h (Nat.le_refl _)
  · rw [h.resolveText]
    exact .ok _ { h with base := rfl } (Nat.le_refl _) trivial

theorem silentlyAlike_readDirective (s : List Char) :
    SilentlyAlike ρ st.nextBlank (readDirective st s) (readDirective st' s) := by
  rw [readDirective, readDirective]
  apply SilentlyAlike.dotted
  split
  · exact silentlyAlike_readPrefixDeclaration h _
  · split
    · exact silentlyAlike_readBaseDeclaration h _
    · exact .error _ h (Nat.le_refl _)

theorem silentlyAlike_readBareDirective (s : List Char) :
    SilentlyAlike ρ st.nextBlank (readBareDirective st s) (readBareDirective st' s) := by
  rw [readBareDirective, readBareDirective]
  split
  · exact silentlyAlike_readPrefixDeclaration h _
  · split
    · exact silentlyAlike_readBaseDeclaration h _
    · exact .error _ h (Nat.le_refl _)

end Declarations

theorem silentlyAlike_readStatement {st st' : State} (h : st.Renamed ρ st') (s : List Char) :
    SilentlyAlike ρ st.nextBlank (readStatement st s) (readStatement st' s) := by
  rw [readStatement, readStatement]
  have hsubject := readingsAlike_readTerm h s
  generalize readTerm st s = subject at hsubject ⊢
  generalize readTerm st' s = subject' at hsubject ⊢
  cases hsubject with
  | error halt hst₁ hle₁ => exact .error halt hst₁ hle₁
  | @ok st₁ st₁' x x' r hst₁ hle₁ hx =>
    have hindividual : x'.isIndividual = x.isIndividual := by
      rw [hx.rename, Term.isIndividual_rename]
    dsimp only
    rw [hindividual]
    split
    · split
      · exact .same hst₁ hle₁ _
      · have hpredicates := readingsAlike_readPredicates hst₁ hx (skip r.1)
        generalize readPredicates st₁ x (skip r.1) = predicates at hpredicates ⊢
        generalize readPredicates st₁' x' (skip r.1) = predicates' at hpredicates ⊢
        cases hpredicates with
        | error halt hst₂ hle₂ => exact .error halt hst₂ (Nat.le_trans hle₁ hle₂)
        | ok q hst₂ hle₂ _ => exact .same hst₂ (Nat.le_trans hle₁ hle₂) _
    · exact .error _ hst₁ hle₁

theorem silentlyAlike_readEntry {st st' : State} (h : st.Renamed ρ st') (s : List Char) :
    SilentlyAlike ρ st.nextBlank (readEntry st s) (readEntry st' s) := by
  rw [readEntry, readEntry]
  split
  · exact silentlyAlike_readDirective h s
  · split
    · exact silentlyAlike_readBareDirective h s
    · exact silentlyAlike_readStatement h s

/-- Whole texts are read alike. -/
theorem renamed_readEntries {st st' : State} (h : st.Renamed ρ st') (s : List Char) :
    (readEntries st s).1.Renamed ρ (readEntries st' s).1 ∧
      (readEntries st' s).2 = (readEntries st s).2 := by
  rw [readEntries, readEntries]
  split
  · exact ⟨h, rfl⟩
  · rename_i c text hle _ _
    have hentry := silentlyAlike_readEntry h (c :: text)
    generalize readEntry st (c :: text) = entry at hentry ⊢
    generalize readEntry st' (c :: text) = entry' at hentry ⊢
    cases hentry with
    | error halt hst₁ _ => exact ⟨hst₁, rfl⟩
    | ok r hst₁ _ _ =>
      have hlt : r.1.length < s.length := Nat.lt_of_lt_of_le r.2 hle
      exact renamed_readEntries hst₁ r.1
termination_by s.length

theorem State.Renamed.readDocument {st st' : State} (h : st.Renamed ρ st') (text : String) :
    (st.readDocument text).1.Renamed ρ (st'.readDocument text).1 ∧
      (st'.readDocument text).2 = (st.readDocument text).2 := by
  have hentries := renamed_readEntries h text.toList
  rw [State.readDocument, State.readDocument]
  generalize readEntries st text.toList = entries at hentries ⊢
  generalize readEntries st' text.toList = entries' at hentries ⊢
  obtain ⟨st₁, result⟩ := entries
  obtain ⟨st₁', result'⟩ := entries'
  obtain ⟨hst₁, rfl⟩ := hentries
  cases result' with
  | error halt => exact ⟨hst₁, rfl⟩
  | ok _ => exact ⟨hst₁, rfl⟩

end Grammar

end Turtle

end GraphConformance
