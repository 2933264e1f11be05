import GraphConformance.Proofs.Iri.Resolution
import GraphConformance.Proofs.Renaming.Numbering
import GraphConformance.Proofs.Turtle.Mentions

/-!
# What the base decides

Of the references with a scheme, those that hold `://` or start with `urn:` are taken as they are;
the others are put behind the stem of the base (`resolveText_eq_iff`).

The base is looked at nowhere else. A document all of whose references are taken as they are is
therefore read alike next to any base, and without one: at every production the state that is left
is the same but for the base, and so is what has been read (`rebased_readTerm` to
`rebased_readDocument`).
-/

set_option autoImplicit false

namespace GraphConformance

open Text Vocabulary

namespace Turtle

/-! ## One reference -/

/-- A reference with a scheme comes out as it is written when it is taken whole, or when there is
nothing to put in front of it. -/
theorem resolveText_eq_iff {st : State} {base : Iri} (hbase : st.base = some base)
    {reference : String} (hscheme : Iri.HasScheme reference.toList) :
    (st.resolveText reference).text = reference ↔
      Iri.IsTakenWhole reference.toList ∨ base.text = "" := by
  have hresolve : st.resolveText reference = base.resolve reference := by
    rw [State.resolveText, hbase]
  rw [hresolve]
  by_cases hwhole : Iri.IsTakenWhole reference.toList
  · rw [Iri.resolve_of_isTakenWhole base hwhole]
    exact iff_of_true rfl (Or.inl hwhole)
  · rw [Iri.resolve_of_hasScheme base hscheme hwhole, or_iff_right hwhole, Iri.beside,
      String.append_eq_right_iff, Iri.stem_eq_empty_iff]

theorem resolveText_of_isTakenWhole (st : State) {reference : String}
    (h : Iri.IsTakenWhole reference.toList) : st.resolveText reference = ⟨reference⟩ := by
  rw [State.resolveText]
  cases st.base with
  | none => rfl
  | some base => exact Iri.resolve_of_isTakenWhole base h

/-! ## The same state next to another base -/

/-- The state with another base. -/
def State.rebased (b : Option Iri) (st : State) : State := { st with base := b }

/-- The reading that leaves another base. -/
def Reading.rebased (b : Option Iri) {s : List Char} {α : Type} (reading : Reading s α) :
    Reading s α :=
  ⟨reading.state.rebased b, reading.result⟩

/-- All references among the mentions are taken as they are. -/
def TakenWhole (mentions : List Mention) : Prop :=
  ∀ text, .reference text ∈ mentions → Iri.IsTakenWhole text

namespace TakenWhole

variable {m : Mention} {ms ms' : List Mention}

theorem left (h : TakenWhole (ms ++ ms')) : TakenWhole ms :=
  fun text ht => h text (List.mem_append_left _ ht)

theorem right (h : TakenWhole (ms ++ ms')) : TakenWhole ms' :=
  fun text ht => h text (List.mem_append_right _ ht)

theorem tail (h : TakenWhole (m :: ms)) : TakenWhole ms :=
  fun text ht => h text (List.mem_cons_of_mem _ ht)

end TakenWhole

section Grammar

variable (b : Option Iri) (st : State)

theorem resolveText_rebased {text : List Char} (h : Iri.IsTakenWhole text) :
    (st.rebased b).resolveText (String.ofList text) = st.resolveText (String.ofList text) := by
  have hwhole : Iri.IsTakenWhole (String.ofList text).toList := by rwa [String.toList_ofList]
  rw [resolveText_of_isTakenWhole _ hwhole, resolveText_of_isTakenWhole _ hwhole]

theorem resolve_rebased {r : Reference} (h : TakenWhole r.mentions) :
    (st.rebased b).resolve r = st.resolve r := by
  cases r with
  | bracketed text =>
    exact congrArg Except.ok (resolveText_rebased b st (h text (List.mem_singleton_self _)))
  | named label suffix => rfl

theorem place_rebased {atom : Atom} (h : TakenWhole (atom.mentions st)) :
    (st.rebased b).place atom = ((st.place atom).1.rebased b, (st.place atom).2) := by
  cases atom with
  | reference r => exact congrArg (_, ·.map Term.iri) (resolve_rebased b st h)
  | label name =>
    rw [State.place, State.place, State.labelledBlank, State.labelledBlank]
    cases hlabel : st.labels.get? (String.ofList name) <;> simp [State.rebased, hlabel]
  | literal l => rfl
  | typed value datatype =>
    exact congrArg (_, ·.map fun d => Term.literal ⟨String.ofList value, .typed d⟩)
      (resolve_rebased b st h)

theorem addList_rebased (items : List Term) :
    (st.rebased b).addList items = ((st.addList items).1.rebased b, (st.addList items).2) := by
  induction items with
  | nil => rfl
  | cons item items ih =>
    rw [State.addList, ih, State.addList]
    rfl

mutual

theorem rebased_readTerm (st : State) (s : List Char) (h : TakenWhole (mentionsTerm st s)) :
    readTerm (st.rebased b) s = (readTerm st s).rebased b := by
  rw [mentionsTerm] at h
  rw [readTerm, readTerm]
  cases hbracket : mark? '[' s with
  | some r =>
    rw [hbracket] at h
    have hfresh : (st.rebased b).freshBlank = (st.freshBlank.1.rebased b, st.freshBlank.2) := rfl
    rw [hfresh]
    dsimp only at h ⊢
    cases hclose : mark? ']' (skip r.1) with
    | some q => rfl
    | none =>
      rw [hclose] at h
      have hlt : (skip r.1).length < s.length := r.skip.2
      dsimp only
      rw [rebased_readPredicates st.freshBlank.1 st.freshBlank.2 (skip r.1) h.tail]
      cases readPredicates st.freshBlank.1 st.freshBlank.2 (skip r.1) with
      | mk st' result => cases result <;> rfl
  | none =>
    rw [hbracket] at h
    dsimp only at h ⊢
    cases hparen : mark? '(' s with
    | some r =>
      rw [hparen] at h
      have hlt : (skip r.1).length < s.length := r.skip.2
      dsimp only
      -- what is mentioned besides the items is the collection itself, which is no reference
      rw [rebased_readItems st (skip r.1) h.left]
      cases readItems st (skip r.1) with
      | mk st' result =>
        cases result with
        | error halt => rfl
        | ok answer =>
          dsimp only [Reading.rebased]
          rw [addList_rebased]
    | none =>
      rw [hparen] at h
      dsimp only at h ⊢
      cases hatom : readAtom s with
      | error halt => rfl
      | ok answer =>
        rw [hatom] at h
        dsimp only
        rw [place_rebased b st h]
        cases st.place answer.1 with
        | mk st' result => cases result <;> rfl
termination_by (s.length, 0)

theorem rebased_readItems (st : State) (s : List Char) (h : TakenWhole (mentionsItems st s)) :
    readItems (st.rebased b) s = (readItems st s).rebased b := by
  rw [mentionsItems] at h
  rw [readItems, readItems]
  cases hclose : mark? ')' s with
  | some r => rfl
  | none =>
    rw [hclose] at h
    dsimp only at h ⊢
    rw [rebased_readTerm st s h.left]
    have hmore := h.right
    cases hterm : readTerm st s with
    | mk st' result =>
      cases result with
      | error halt => rfl
      | ok answer =>
        rw [hterm] at hmore
        have hlt : (skip answer.2.1).length < s.length := answer.2.skip.2
        dsimp only [Reading.rebased]
        rw [rebased_readItems st' (skip answer.2.1) hmore]
        cases readItems st' (skip answer.2.1) with
        | mk st'' result => cases result <;> rfl
termination_by (s.length, 1)

theorem rebased_readPredicate (st : State) (s : List Char)
    (h : TakenWhole (mentionsPredicate st s)) :
    readPredicate (st.rebased b) s = (readPredicate st s).rebased b := by
  rw [mentionsPredicate] at h
  rw [readPredicate, readPredicate]
  cases hshorthand : typeShorthand? s with
  | some r => rfl
  | none =>
    rw [hshorthand] at h
    dsimp only at h ⊢
    rw [rebased_readTerm st s h]
    cases readTerm st s with
    | mk st' result =>
      cases result with
      | error halt => rfl
      | ok answer =>
        dsimp only [Reading.rebased]
        split <;> rfl
termination_by (s.length, 1)

theorem rebased_readObjects (st : State) (x p : Term) (s : List Char)
    (h : TakenWhole (mentionsObjects st x p s)) :
    readObjects (st.rebased b) x p s = (readObjects st x p s).rebased b := by
  rw [mentionsObjects] at h
  rw [readObjects, readObjects, rebased_readTerm st s h.left]
  have hmore := h.right
  cases hterm : readTerm st s with
  | mk st' result =>
    cases result with
    | error halt => rfl
    | ok answer =>
      obtain ⟨object, r⟩ := answer
      rw [hterm] at hmore
      dsimp only [Reading.andThen] at hmore
      dsimp only [Reading.rebased]
      cases hcomma : mark? ',' (skip r.1) with
      | none => rfl
      | some q =>
        rw [hcomma] at hmore
        have hlt : (r.skip.trans q).skip.1.length < s.length := (r.skip.trans q).skip.2
        have hrest := rebased_readObjects (st'.addTriple x p object) x p (r.skip.trans q).skip.1
          hmore
        change readObjects ((st'.rebased b).addTriple x p object) x p
          (r.skip.trans q).skip.1 = _ at hrest
        dsimp only
        rw [hrest]
        cases readObjects (st'.addTriple x p object) x p (r.skip.trans q).skip.1 with
        | mk st'' result => cases result <;> rfl
termination_by (s.length, 1)

theorem rebased_readPredicates (st : State) (x : Term) (s : List Char)
    (h : TakenWhole (mentionsPredicates st x s)) :
    readPredicates (st.rebased b) x s = (readPredicates st x s).rebased b := by
  rw [mentionsPredicates] at h
  rw [readPredicates, readPredicates, rebased_readPredicate st s h.left]
  have hmore := h.right
  cases hpredicate : readPredicate st s with
  | mk st' result =>
    cases result with
    | error halt => rfl
    | ok answer =>
      obtain ⟨p, r⟩ := answer
      rw [hpredicate] at hmore
      have hlt : (skip r.1).length < s.length := r.skip.2
      dsimp only [Reading.andThen] at hmore
      dsimp only [Reading.rebased]
      rw [rebased_readObjects st' x p (skip r.1) hmore.left]
      have hlast := hmore.right
      cases hobjects : readObjects st' x p (skip r.1) with
      | mk st'' result =>
        cases result with
        | error halt => rfl
        | ok answer =>
          obtain ⟨_, q⟩ := answer
          rw [hobjects] at hlast
          dsimp only [Reading.andThen] at hlast
          dsimp only [Reading.rebased]
          cases hsemicolon : mark? ';' (r.skip.trans q).skip.1 with
          | none => rfl
          | some z =>
            rw [hsemicolon] at hlast
            have hlt : ((r.skip.trans q).skip.trans z).skipSemicolons.1.length < s.length :=
              ((r.skip.trans q).skip.trans z).skipSemicolons.2
            dsimp only at hlast ⊢
            by_cases hend : endsPredicates ((r.skip.trans q).skip.trans z).skipSemicolons.1 = true
            · rw [if_pos hend, if_pos hend]
            · rw [if_neg hend] at hlast
              rw [if_neg hend, if_neg hend, rebased_readPredicates st'' x
                ((r.skip.trans q).skip.trans z).skipSemicolons.1 hlast]
              cases readPredicates st'' x ((r.skip.trans q).skip.trans z).skipSemicolons.1 with
              | mk last result => cases result <;> rfl
termination_by (s.length, 2)

end

/-! ### Directives, statements and documents -/

/-- The namespace of a declared prefix is the same next to any base. -/
theorem rebased_readPrefixDeclaration (st : State) {s : List Char} (r : Shorter s)
    (h : TakenWhole (mentionsPrefixDeclaration r)) :
    readPrefixDeclaration (st.rebased b) r = (readPrefixDeclaration st r).rebased b := by
  rw [mentionsPrefixDeclaration] at h
  rw [readPrefixDeclaration, readPrefixDeclaration]
  dsimp only at h ⊢
  generalize expect ':' .colonAfterName _ = colon at h ⊢
  cases colon with
  | error halt => rfl
  | ok answer =>
    dsimp only [mentionsReference] at h ⊢
    cases hread : reference? answer.2.skip.1 with
    | none => rfl
    | some space =>
      rw [hread] at h
      dsimp only
      rw [resolveText_rebased b st (h space.1 (List.mem_singleton_self _))]
      rfl

/-- A declared base is the same next to any base. -/
theorem rebased_readBaseDeclaration (st : State) {s : List Char} (r : Shorter s)
    (h : TakenWhole (mentionsReference r.skip.1)) :
    ∃ b', readBaseDeclaration (st.rebased b) r = (readBaseDeclaration st r).rebased b' := by
  rw [mentionsReference] at h
  rw [readBaseDeclaration, readBaseDeclaration]
  cases hread : reference? r.skip.1 with
  | none => exact ⟨b, rfl⟩
  | some declared =>
    rw [hread] at h
    dsimp only
    rw [resolveText_rebased b st (h declared.1 (List.mem_singleton_self _))]
    exact ⟨some (st.resolveText (String.ofList declared.1)), rfl⟩

theorem rebased_readDeclaration (st : State) (prefixKeyword baseKeyword s : List Char)
    (h : TakenWhole (mentionsDirective prefixKeyword baseKeyword s)) :
    ∃ b', readDeclaration (st.rebased b) prefixKeyword baseKeyword s =
      (readDeclaration st prefixKeyword baseKeyword s).rebased b' := by
  rw [mentionsDirective] at h
  rw [readDeclaration, readDeclaration]
  cases hkeyword : word? prefixKeyword s with
  | some r =>
    rw [hkeyword] at h
    exact ⟨b, rebased_readPrefixDeclaration b st r h⟩
  | none =>
    rw [hkeyword] at h
    dsimp only at h ⊢
    cases hbase : word? baseKeyword s with
    | some r =>
      rw [hbase] at h
      exact rebased_readBaseDeclaration b st r h
    | none => exact ⟨b, rfl⟩

theorem rebased_dotted {s : List Char} (declaration : Reading s Unit) :
    (declaration.rebased b).dotted = declaration.dotted.rebased b := by
  cases declaration with
  | mk st' result => cases result <;> rfl

theorem rebased_readStatement (st : State) (s : List Char)
    (h : TakenWhole (mentionsStatement st s)) :
    readStatement (st.rebased b) s = (readStatement st s).rebased b := by
  rw [mentionsStatement] at h
  rw [readStatement, readStatement, rebased_readTerm b st s h.left]
  have hmore := h.right
  cases hterm : readTerm st s with
  | mk st' result =>
    cases result with
    | error halt => rfl
    | ok answer =>
      obtain ⟨subject, r⟩ := answer
      rw [hterm] at hmore
      dsimp only [Reading.andThen] at hmore
      dsimp only [Reading.rebased]
      by_cases hindividual : subject.isIndividual = true
      · rw [if_pos hindividual] at hmore
        rw [if_pos hindividual, if_pos hindividual]
        by_cases halone : s.head? = some '[' ∧ (skip r.1).head? = some '.'
        · rw [if_pos halone, if_pos halone]
        · rw [if_neg halone] at hmore
          rw [if_neg halone, if_neg halone, rebased_readPredicates b st' subject (skip r.1) hmore]
          cases readPredicates st' subject (skip r.1) with
          | mk last result => cases result <;> rfl
      · rw [if_neg hindividual, if_neg hindividual]

theorem rebased_readEntry (st : State) (s : List Char) (h : TakenWhole (mentionsEntry st s)) :
    ∃ b', readEntry (st.rebased b) s = (readEntry st s).rebased b' := by
  rw [mentionsEntry] at h
  rw [readEntry, readEntry]
  split
  · rename_i hsign
    rw [if_pos hsign] at h
    obtain ⟨b', hb'⟩ := rebased_readDeclaration b st _ _ s h
    rw [readDirective_eq, readDirective_eq, hb', rebased_dotted]
    exact ⟨b', rfl⟩
  · rename_i hsign
    rw [if_neg hsign] at h
    split
    · rename_i hkeyword
      rw [if_pos hkeyword] at h
      rw [readBareDirective_eq, readBareDirective_eq]
      exact rebased_readDeclaration b st _ _ s h
    · rename_i hkeyword
      rw [if_neg hkeyword] at h
      exact ⟨b, rebased_readStatement b st s h⟩

theorem rebased_readEntries (st : State) (s : List Char) :
    ∀ b, TakenWhole (mentionsEntries st s) →
      ∃ b', readEntries (st.rebased b) s =
        ((readEntries st s).1.rebased b', (readEntries st s).2) := by
  induction st, s using readEntries.induct with
  | case1 st s _ hskip =>
    intro b _
    rw [readEntries_of_skip_eq_nil hskip, readEntries_of_skip_eq_nil hskip]
    exact ⟨b, rfl⟩
  | case2 st s a text _ hskip st' halt hentry =>
    intro b h
    have hne := List.cons_ne_nil a text
    rw [mentionsEntries_of_skip hskip hne] at h
    obtain ⟨b', hb'⟩ := rebased_readEntry b st (a :: text) h.left
    rw [hentry] at hb'
    rw [readEntries_of_halt hskip hne hentry, readEntries_of_halt hskip hne hb']
    exact ⟨b', rfl⟩
  | case3 st s a text _ hskip st' v r hentry _ ih =>
    intro b h
    have hne := List.cons_ne_nil a text
    rw [mentionsEntries_of_skip hskip hne] at h
    obtain ⟨b', hb'⟩ := rebased_readEntry b st (a :: text) h.left
    have hmore := h.right
    rw [hentry] at hb' hmore
    rw [readEntries_of_readEntry hskip hne hentry, readEntries_of_readEntry hskip hne hb']
    exact ih b' hmore

/-- A document all of whose references are taken whole is read alike next to any base. -/
theorem State.rebased_readDocument {st : State} {text : String}
    (h : TakenWhole (st.mentions text)) (b : Option Iri) :
    ∃ b', (st.rebased b).readDocument text =
      ((st.readDocument text).1.rebased b', (st.readDocument text).2) := by
  obtain ⟨b', hb'⟩ := rebased_readEntries st text.toList b h
  rw [readDocument, readDocument, hb']
  cases readEntries st text.toList with
  | mk st' result => cases result <;> exact ⟨b', rfl⟩

end Grammar

end Turtle

/-! ## Documents next to two bases -/

namespace Source

open Turtle

/-- The text next to another base. -/
def nextTo (source : Source) (base : Option Iri) : Source := { source with base := base }

theorem start_nextTo (source : Source) (base : Option Iri) (n : Nat) :
    (source.nextTo base).start n = (source.start n).rebased base := by
  have hnames : ∀ (names : List (String × String)) (st : State),
      (st.rebased base).declareAll names = (st.declareAll names).rebased base := by
    intro names
    induction names with
    | nil => exact fun _ => rfl
    | cons name names ih => exact fun st => ih (st.declare name.1 name.2)
  exact hnames source.names (State.initial n source.base)

theorem read_nextTo {source : Source} {n : Nat}
    (h : TakenWhole ((source.start n).mentions source.text)) (base : Option Iri) :
    (source.nextTo base).read n = source.read n := by
  obtain ⟨base', hread⟩ := State.rebased_readDocument h base
  have htext : (source.nextTo base).text = source.text := rfl
  rw [read, start_nextTo, htext, hread, read]
  cases (source.start n).readDocument source.text with
  | mk st result => cases result <;> rfl

/-- Numbers that go from one run to another one of the same length, and the others elsewhere. -/
theorem exists_shift (n n' count : Nat) : ∃ f : Nat ↪ Nat, ∀ i < count, f (n + i) = n' + i := by
  -- as the first of three texts, of which the others make no nodes
  have horder : InOrder ⟨count, 0, 0⟩ ⟨n', n' + count, n' + count⟩ :=
    ⟨Nat.le_refl _, Nat.le_refl _⟩
  refine ⟨⟨recount ⟨count, 0, 0⟩ ⟨n, n + count, n + count⟩ _, injective_recount horder⟩, ?_⟩
  intro i hi
  have hcount : i < (⟨count, 0, 0⟩ : PerText Nat).ontology := hi
  exact recount_ontology hcount

/-- The outcomes of reading the text next to two bases, from two numbers on. -/
theorem endAlike_read_nextTo {source : Source} {n : Nat}
    (h : TakenWhole ((source.start n).mentions source.text)) (base : Option Iri) (n' : Nat) :
    ∃ f : Nat ↪ Nat, EndAlike Eq
      (fun answer answer' => answer.1.Renamed (BlankNode.renumber f) answer'.1)
      (source.read n) ((source.nextTo base).read n') := by
  obtain ⟨f, hf⟩ := exists_shift n n' (source.nextTo base).count
  have halike := (source.nextTo base).endAlike_read hf
  rw [read_nextTo h] at halike
  refine ⟨f, ?_⟩
  generalize source.read n = answer at halike ⊢
  generalize (source.nextTo base).read n' = answer' at halike ⊢
  cases halike with
  | ok hanswer => exact .ok hanswer.value
  | error herror => exact .error herror

end Source

namespace Turtle

/-- What a base changes. It leaves a reference with a scheme as it is exactly when the reference
holds `://` or starts with `urn:`, or when there is no base or an empty one. A document whose
references all hold `://` or start with `urn:` is read alike with any two bases, or with one and
none: with the same error, or with the same triples up to the numbers of their blank nodes. -/
theorem unchanged_by_base (base : Option Iri) :
    (∀ (st : State) (reference : String), st.base = base → Iri.HasScheme reference.toList →
      ((st.resolveText reference).text = reference ↔
        Iri.IsTakenWhole reference.toList ∨ ∀ b ∈ base, b.text = "")) ∧
    ∀ (source : Source) (n n' : Nat), TakenWhole ((source.start n).mentions source.text) →
      ∃ f : Nat ↪ Nat, EndAlike Eq
        (fun answer answer' => answer.1.Renamed (BlankNode.renumber f) answer'.1)
        (source.read n) ((source.nextTo base).read n') := by
  constructor
  · intro st reference hbase hscheme
    cases base with
    | none => exact iff_of_true (by rw [State.resolveText, hbase]) (Or.inr (by simp))
    | some b =>
      rw [resolveText_eq_iff hbase hscheme]
      simp
  · intro source n n' h
    exact Source.endAlike_read_nextTo h base n'

/-! A reference with a scheme of its own next to a base, and a document of references that are taken
as they are. -/

namespace MailBase

def base : Iri := ⟨"http://h/d"⟩

def typed : Source := ⟨some base, [], "<urn:>a[]."⟩

/-- What is read and mentioned behind the subject. -/
theorem readPredicates_typed (st : State) (x : Term) :
    (∃ st', readPredicates st x ['a', '[', ']', '.'] = ⟨st', .ok ((), ⟨['.'], by decide⟩)⟩) ∧
    mentionsPredicates st x ['a', '[', ']', '.'] = [.bracket st.bracketNode] := by
  have hnode : readTerm st ['[', ']', '.'] =
      ⟨st.freshBlank.1, .ok (st.freshBlank.2, ⟨['.'], by decide⟩)⟩ := by
    rw [readTerm]
    rfl
  have hbracket : mentionsTerm st ['[', ']', '.'] = [.bracket st.bracketNode] := by
    rw [mentionsTerm]
    rfl
  have hobjects : readObjects st x (.iri Rdf.type) ['[', ']', '.'] =
      ⟨st.freshBlank.1.addTriple x (.iri Rdf.type) st.freshBlank.2,
        .ok ((), ⟨['.'], by decide⟩)⟩ := by
    rw [readObjects, hnode]
    rfl
  have hmentions : mentionsObjects st x (.iri Rdf.type) ['[', ']', '.'] =
      [.bracket st.bracketNode] := by
    rw [mentionsObjects, hnode, hbracket]
    rfl
  have hpredicate : readPredicate st ['a', '[', ']', '.'] =
      ⟨st, .ok (.iri Rdf.type, ⟨['[', ']', '.'], by decide⟩)⟩ := by
    rw [readPredicate]
    rfl
  have hnone : mentionsPredicate st ['a', '[', ']', '.'] = [] := by
    rw [mentionsPredicate]
    rfl
  rw [readPredicates, mentionsPredicates, hpredicate, hnone]
  dsimp only [Reading.andThen]
  rw [show readObjects st x (.iri Rdf.type) (skip ['[', ']', '.']) = _ from hobjects,
    show mentionsObjects st x (.iri Rdf.type) (skip ['[', ']', '.']) = _ from hmentions]
  exact ⟨⟨_, rfl⟩, rfl⟩

theorem readEntry_typed (st : State) :
    (∃ st', readEntry st typed.text.toList = ⟨st', .ok ((), ⟨[], by decide⟩)⟩) ∧
    mentionsEntry st typed.text.toList =
      [.reference ['u', 'r', 'n', ':'], .bracket st.bracketNode] := by
  have hsubject : readTerm st typed.text.toList =
      ⟨st, .ok (.iri (st.resolveText "urn:"), ⟨['a', '[', ']', '.'], by decide⟩)⟩ := by
    rw [readTerm]
    rfl
  have hreference : mentionsTerm st typed.text.toList = [.reference ['u', 'r', 'n', ':']] := by
    rw [mentionsTerm]
    rfl
  obtain ⟨⟨st', hread⟩, hmentions⟩ := readPredicates_typed st (.iri (st.resolveText "urn:"))
  rw [readEntry, mentionsEntry, if_neg (by decide), if_neg (by decide), if_neg (by decide),
    if_neg (by decide), readStatement, mentionsStatement, hsubject, hreference]
  dsimp only [Reading.andThen]
  rw [if_pos (by rfl), if_neg (by decide), if_pos (by rfl), if_neg (by decide)]
  rw [show readPredicates st (.iri (st.resolveText "urn:")) (skip ['a', '[', ']', '.']) = _
      from hread,
    show mentionsPredicates st (.iri (st.resolveText "urn:")) (skip ['a', '[', ']', '.']) = _
      from hmentions]
  exact ⟨⟨st', rfl⟩, rfl⟩

theorem mentions_typed (st : State) :
    st.mentions typed.text = [.reference ['u', 'r', 'n', ':'], .bracket st.bracketNode] := by
  obtain ⟨⟨st', hread⟩, hmentions⟩ := readEntry_typed st
  have hskip : skip typed.text.toList = typed.text.toList := rfl
  rw [State.mentions, mentionsEntries_of_skip hskip (by decide), hmentions, hread]
  dsimp only [Reading.andThen]
  rw [mentionsEntries_of_skip_eq_nil rfl, List.append_nil]

theorem takenWhole_typed (n : Nat) : TakenWhole ((typed.start n).mentions typed.text) := by
  rw [mentions_typed]
  intro text ht
  obtain rfl : text = ['u', 'r', 'n', ':'] := by simpa using ht
  decide

/-- The base decides about the address, but not about the document, which is read with it and
without. -/
theorem unchanged_by_base_typed :
    (Iri.HasScheme "mailto:a@b".toList ∧
      (((State.initial 0 (some base)).resolveText "mailto:a@b").text = "mailto:a@b" ↔
        Iri.IsTakenWhole "mailto:a@b".toList ∨ ∀ b ∈ some base, b.text = "")) ∧
    TakenWhole ((typed.start 0).mentions typed.text) ∧
    ∃ f : Nat ↪ Nat, EndAlike Eq
      (fun answer answer' => answer.1.Renamed (BlankNode.renumber f) answer'.1)
      (typed.read 0) ((typed.nextTo none).read 7) :=
  ⟨⟨by decide, (unchanged_by_base (some base)).1 (State.initial 0 (some base)) "mailto:a@b" rfl
    (by decide)⟩, takenWhole_typed 0,
    (unchanged_by_base none).2 typed 0 7 (takenWhole_typed 0)⟩

/-- The base is put in front of a reference that has a scheme. -/
theorem resolve_mail : (base.resolve "mailto:a@b").text = "http://h/mailto:a@b" := by
  decide

theorem not_forall_resolveText_eq :
    ¬∀ (st : State) (reference : String), Iri.HasScheme reference.toList →
      (st.resolveText reference).text = reference := by
  intro h
  have hmail := h (State.initial 0 (some base)) "mailto:a@b" (by decide)
  have hbase : (State.initial 0 (some base)).resolveText "mailto:a@b" =
      base.resolve "mailto:a@b" := rfl
  rw [hbase, resolve_mail] at hmail
  exact absurd hmail (by decide)

end MailBase

end Turtle

end GraphConformance
