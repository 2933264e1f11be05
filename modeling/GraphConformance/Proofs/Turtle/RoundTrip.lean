import GraphConformance.Proofs.Renaming.Terms
import GraphConformance.Proofs.Turtle.Rests
import Mathlib.Data.List.Nodup

/-!
# Written stores are read back

The written form of a store, read as a document, gives the triples of the store in their order; its
blank nodes become the nodes that the reader makes for their names.

The argument has two halves. The grammar reads one line after the other and does with a triple what
`State.record` does (`readStatement_chars`, `readEntries_lines`); nothing here looks into the table
of labels. The table then gives each name one node of its own, made when the name is first met
(`Labelled`, `Remembers`), so that the recorded triples are the old ones with their blank nodes
renamed by the table as it is in the end (`triples_recordAll`).
-/

set_option autoImplicit false

namespace GraphConformance

open Text Vocabulary

/-! ## What can be written -/

/-- The text that is written for a blank node after its mark. -/
def BlankNode.text (b : BlankNode) : String := String.ofList b.name

theorem BlankNode.text_injective : Function.Injective BlankNode.text :=
  fun _ _ h => name_injective (String.ofList_injective h)

/-- The triple has its parts in their places, and what is written for them can be read back. -/
structure Triple.Writable (t : Triple) : Prop where
  isIndividual : t.subject.isIndividual = true
  isIri : t.predicate.isIri = true
  subject : t.subject.Writable
  predicate : t.predicate.Writable
  object : t.object.Writable

/-- What is written for the store can be read back: its triples can, and no number stands for two
blank nodes. -/
structure Store.Writable (s : Store) : Prop where
  triples : ∀ t ∈ s.triples, t.Writable
  label_eq : ∀ b b', .blank b ∈ s.terms → .blank b' ∈ s.terms → b.id = b'.id → b.label = b'.label

namespace Turtle

namespace State

variable {st st' : State}

/-! ## Looking up and recording -/

/-- The state and the term after a term has been read. -/
def lookUp (st : State) : Term → State × Term
  | .blank b => st.labelledBlank b.text
  | t => (st, t)

/-- The state after a triple has been read. -/
def record (st : State) (t : Triple) : State :=
  let subject := st.lookUp t.subject
  let predicate := subject.1.lookUp t.predicate
  let object := predicate.1.lookUp t.object
  object.1.addTriple subject.2 predicate.2 object.2

/-- The state after several triples have been read. -/
def recordAll (st : State) (ts : List Triple) : State := ts.foldl record st

@[simp]
theorem labelledBlank_base (st : State) (label : String) :
    (st.labelledBlank label).1.base = st.base := by
  rw [labelledBlank]
  split
  · rfl
  · rfl

@[simp]
theorem labelledBlank_store (st : State) (label : String) :
    (st.labelledBlank label).1.store = st.store := by
  rw [labelledBlank]
  split
  · rfl
  · rfl

@[simp]
theorem lookUp_base (st : State) (t : Term) : (st.lookUp t).1.base = st.base := by
  cases t with
  | iri i => rfl
  | literal l => rfl
  | blank b => exact st.labelledBlank_base b.text

@[simp]
theorem lookUp_store (st : State) (t : Term) : (st.lookUp t).1.store = st.store := by
  cases t with
  | iri i => rfl
  | literal l => rfl
  | blank b => exact st.labelledBlank_store b.text

@[simp]
theorem record_base (st : State) (t : Triple) : (st.record t).base = st.base := by
  simp [record, addTriple]

theorem place_ofTerm (hbase : st.base = none) (t : Term) :
    st.place (.ofTerm t) = ((st.lookUp t).1, .ok (st.lookUp t).2) := by
  cases t with
  | iri i => simp [Atom.ofTerm, place, resolve, resolveText, hbase, lookUp, Except.map]
  | blank b => rfl
  | literal l =>
    obtain ⟨value, type⟩ := l
    cases type with
    | plain => rfl
    | language tag => rfl
    | typed datatype =>
      simp [Atom.ofTerm, place, resolve, resolveText, hbase, lookUp, Except.map]

theorem isIndividual_lookUp {t : Term} (h : t.isIndividual = true) :
    (st.lookUp t).2.isIndividual = true := by
  cases t with
  | iri i => rfl
  | literal l => exact h
  | blank b =>
    rw [lookUp, labelledBlank]
    split
    · rfl
    · rfl

end State

/-! ## Gaps and first characters -/

theorem skip_cons_of_isBlank {c : Char} (h : isBlank c = true) (s : List Char) :
    skip (c :: s) = skip s := by
  simp [skip, skipGap, h]

theorem skip_cons_of_not_isBlank {c : Char} (h : isBlank c = false) (hcomment : c ≠ '#')
    (s : List Char) : skip (c :: s) = c :: s := by
  simp [skip, skipGap, h, hcomment]

/-- The character that starts what is written for a term. -/
def mark : Term → Char
  | .iri _ => '<'
  | .blank _ => '_'
  | .literal _ => '"'

theorem exists_chars_eq (t : Term) : ∃ text, t.chars = mark t :: text := by
  cases t with
  | iri i => exact ⟨_, rfl⟩
  | blank b => exact ⟨_, b.chars_eq⟩
  | literal l =>
    obtain ⟨value, type⟩ := l
    cases type with
    | plain => exact ⟨_, rfl⟩
    | language tag => exact ⟨_, rfl⟩
    | typed datatype => exact ⟨_, rfl⟩

theorem mark_cases {P : Char → Prop} (hiri : P '<') (hblank : P '_') (hliteral : P '"')
    (t : Term) : P (mark t) := by
  cases t with
  | iri i => exact hiri
  | blank b => exact hblank
  | literal l => exact hliteral

theorem head?_chars_ne (t : Term) (rest : List Char) {m : Char} (hm : m ∉ ['<', '_', '"']) :
    (t.chars ++ rest).head? ≠ some m := by
  obtain ⟨text, htext⟩ := exists_chars_eq t
  have hmem : mark t ∈ ['<', '_', '"'] := mark_cases (by simp) (by simp) (by simp) t
  rw [htext]
  intro h
  exact hm (Option.some.inj h ▸ hmem)

/-- A term starts where the gap before it ends. -/
theorem skip_chars (t : Term) (rest : List Char) : skip (t.chars ++ rest) = t.chars ++ rest := by
  obtain ⟨text, htext⟩ := exists_chars_eq t
  have hstarts : isBlank (mark t) = false ∧ mark t ≠ '#' :=
    mark_cases (P := fun c => isBlank c = false ∧ c ≠ '#') (by decide) (by decide) (by decide) t
  rw [htext]
  exact skip_cons_of_not_isBlank hstarts.1 hstarts.2 _

theorem skip_space_chars (t : Term) (rest : List Char) :
    skip (' ' :: (t.chars ++ rest)) = t.chars ++ rest := by
  rw [skip_cons_of_isBlank (by decide), skip_chars]

theorem skip_dot (rest : List Char) : skip ('.' :: rest) = '.' :: rest :=
  skip_cons_of_not_isBlank (by decide) (by decide) rest

theorem skip_space_dot (rest : List Char) : skip (' ' :: '.' :: rest) = '.' :: rest := by
  rw [skip_cons_of_isBlank (by decide), skip_dot]

/-- A keyword in letters does not stand where a term starts. -/
theorem startsWithKeyword_chars (t : Term) (rest : List Char) {k : Char} {keyword : List Char}
    (hk : k.toLower ∉ ['<', '_', '"']) :
    startsWithKeyword (k :: keyword) (t.chars ++ rest) = false := by
  obtain ⟨text, htext⟩ := exists_chars_eq t
  have hlower : (mark t).toLower ∈ ['<', '_', '"'] :=
    mark_cases (P := fun c => c.toLower ∈ ['<', '_', '"']) (by decide) (by decide) (by decide) t
  have hne : (mark t).toLower ≠ k.toLower := fun heq => hk (heq ▸ hlower)
  simp [startsWithKeyword, htext, hne]

/-! ## A line -/

section Line

variable {st : State} {s more : List Char}

theorem readTerm_chars {t : Term} (ht : t.Writable) (hbase : st.base = none)
    (hs : s = t.chars ++ ' ' :: more) :
    ∃ r, readTerm st s = ⟨(st.lookUp t).1, .ok ((st.lookUp t).2, r)⟩ ∧ r.1 = ' ' :: more := by
  subst hs
  obtain ⟨hlt, hatom⟩ := readAtom_chars ht more
  refine ⟨⟨' ' :: more, hlt⟩, ?_, rfl⟩
  rw [readTerm, mark?_of_head (head?_chars_ne t _ (by decide)),
    mark?_of_head (head?_chars_ne t _ (by decide)), hatom]
  simp only [State.place_ofTerm hbase]

theorem readPredicate_chars {p : Iri} (hp : p.Writable) (hbase : st.base = none)
    (hs : s = (Term.iri p).chars ++ ' ' :: more) :
    ∃ r, readPredicate st s = ⟨st, .ok (.iri p, r)⟩ ∧ r.1 = ' ' :: more := by
  obtain ⟨r, hterm, hr⟩ := readTerm_chars (t := .iri p) hp hbase hs
  have hshort : typeShorthand? s = none := by
    rw [hs]
    rfl
  refine ⟨r, ?_, hr⟩
  rw [readPredicate, hshort, hterm]
  rfl

theorem readObjects_chars (subject predicate : Term) {object : Term} (ho : object.Writable)
    (hbase : st.base = none) (hs : s = object.chars ++ ' ' :: '.' :: more) :
    ∃ r, readObjects st subject predicate s =
        ⟨(st.lookUp object).1.addTriple subject predicate (st.lookUp object).2, .ok ((), r)⟩ ∧
      r.1 = '.' :: more := by
  obtain ⟨r, hterm, hr⟩ := readTerm_chars ho hbase hs
  have hskip : skip r.1 = '.' :: more := by rw [hr, skip_space_dot]
  refine ⟨r.skip, ?_, hskip⟩
  rw [readObjects, hterm]
  dsimp only
  rw [mark?_of_head (by rw [hskip]; simp)]

theorem readPredicates_chars (subject : Term) {object : Term} {p : Iri} (hp : p.Writable)
    (ho : object.Writable) (hbase : st.base = none)
    (hs : s = (Term.iri p).chars ++ ' ' :: (object.chars ++ ' ' :: '.' :: more)) :
    ∃ r, readPredicates st subject s =
        ⟨(st.lookUp object).1.addTriple subject (.iri p) (st.lookUp object).2, .ok ((), r)⟩ ∧
      r.1 = '.' :: more := by
  obtain ⟨r, hpredicate, hr⟩ := readPredicate_chars hp hbase hs
  have hskip : skip r.1 = object.chars ++ ' ' :: '.' :: more := by rw [hr, skip_space_chars]
  obtain ⟨q, hobjects, hq⟩ := readObjects_chars subject (.iri p) ho hbase hskip
  have hend : (r.skip.trans q).skip.1 = '.' :: more := by
    change skip q.1 = _
    rw [hq, skip_dot]
  refine ⟨(r.skip.trans q).skip, ?_, hend⟩
  rw [readPredicates, hpredicate]
  dsimp only
  rw [hobjects]
  dsimp only
  rw [mark?_of_head (by rw [hend]; simp)]

/-- A line is read as a statement, and the triple on it is recorded. -/
theorem readStatement_chars {t : Triple} (ht : t.Writable) (hbase : st.base = none)
    (hs : s = t.chars ++ more) :
    ∃ r, readStatement st s = ⟨st.record t, .ok ((), r)⟩ ∧ r.1 = more := by
  obtain ⟨subject, predicate, object⟩ := t
  obtain ⟨hindividual, hiri, hsubject, hp, ho⟩ := ht
  cases predicate with
  | literal l => cases hiri
  | blank b => cases hiri
  | iri p =>
    have htext : s = subject.chars ++
        ' ' :: ((Term.iri p).chars ++ ' ' :: (object.chars ++ ' ' :: '.' :: more)) := by
      rw [hs]
      simp [Triple.chars]
    have hbracket : s.head? ≠ some '[' := by
      rw [htext]
      exact head?_chars_ne subject _ (by decide)
    obtain ⟨r, hterm, hr⟩ := readTerm_chars hsubject hbase htext
    have hskip : skip r.1 =
        (Term.iri p).chars ++ ' ' :: (object.chars ++ ' ' :: '.' :: more) := by
      rw [hr, skip_space_chars]
    obtain ⟨q, hpredicates, hq⟩ := readPredicates_chars (st.lookUp subject).2 hp ho
      (st.lookUp_base subject ▸ hbase) hskip
    have hdot : (r.skip.trans q).skip.1 = '.' :: more := by
      change skip q.1 = _
      rw [hq, skip_dot]
    obtain ⟨hlt, hmark⟩ := mark?_of_eq hdot
    refine ⟨(r.skip.trans q).skip.trans ⟨more, hlt⟩, ?_, rfl⟩
    rw [readStatement, hterm]
    dsimp only
    rw [if_pos (State.isIndividual_lookUp hindividual), if_neg fun h => hbracket h.1, hpredicates]
    dsimp only
    rw [expect, hmark]
    rfl

theorem readEntry_chars {t : Triple} (ht : t.Writable) (hbase : st.base = none)
    (hs : s = t.chars ++ more) :
    ∃ r, readEntry st s = ⟨st.record t, .ok ((), r)⟩ ∧ r.1 = more := by
  obtain ⟨rest, htext⟩ : ∃ rest, s = t.subject.chars ++ rest := by
    refine ⟨' ' :: (t.predicate.chars ++ ' ' :: (t.object.chars ++ ' ' :: '.' :: more)), ?_⟩
    rw [hs]
    simp [Triple.chars]
  have hat : s.head? ≠ some '@' := by
    rw [htext]
    exact head?_chars_ne t.subject rest (by decide)
  have hbare : startsWithKeyword "PREFIX".toList s = false := by
    rw [htext]
    exact startsWithKeyword_chars t.subject rest (by decide)
  have hbareBase : startsWithKeyword "BASE".toList s = false := by
    rw [htext]
    exact startsWithKeyword_chars t.subject rest (by decide)
  rw [readEntry, if_neg hat, if_neg (by rw [hbare, hbareBase]; decide)]
  exact readStatement_chars ht hbase hs

end Line

/-! ## All lines -/

/-- Triples in their written form, one on a line. -/
def lines (ts : List Triple) : List Char := ts.flatMap fun t => t.chars ++ ['\n']

theorem lines_cons (t : Triple) (ts : List Triple) :
    lines (t :: ts) = t.chars ++ '\n' :: lines ts := by
  simp [lines]

theorem skip_lines_cons (t : Triple) (ts : List Triple) :
    skip (lines (t :: ts)) = t.chars ++ '\n' :: lines ts := by
  have htext : lines (t :: ts) = t.subject.chars ++ (' ' :: (t.predicate.chars ++
      ' ' :: (t.object.chars ++ ' ' :: '.' :: '\n' :: lines ts))) := by
    rw [lines_cons]
    simp [Triple.chars]
  rw [← lines_cons, htext, skip_chars]

/-- A written list of triples is read triple by triple, from the gap before it to its end. -/
theorem readEntries_lines {ts : List Triple} (hts : ∀ t ∈ ts, t.Writable) {st : State}
    (hbase : st.base = none) {s : List Char} (hs : skip s = skip (lines ts)) :
    readEntries st s = (st.recordAll ts, .ok ()) := by
  induction ts generalizing st s with
  | nil => exact readEntries_of_skip_eq_nil hs st
  | cons t ts ih =>
    obtain ⟨ht, hts⟩ := List.forall_mem_cons.mp hts
    have htext : skip s = t.chars ++ '\n' :: lines ts := by rw [hs, skip_lines_cons]
    obtain ⟨r, hentry, hr⟩ := readEntry_chars ht hbase (rfl : t.chars ++ '\n' :: lines ts = _)
    have hskip : skip r.1 = skip (lines ts) := by rw [hr, skip_cons_of_isBlank (by decide)]
    rw [readEntries_of_readEntry htext (by simp) hentry,
      ih hts (by rw [State.record_base, hbase]) hskip]
    rfl

/-! ## The table of labels -/

namespace State

variable {st st' st'' : State}

/-- Every label has a node of its own, which was made before. -/
structure Labelled (st : State) : Prop where
  lt : ∀ label b, st.labels.get? label = some b → b.id < st.nextBlank
  inj : ∀ label label' b b', st.labels.get? label = some b → st.labels.get? label' = some b' →
    b.id = b'.id → label = label'

/-- The labels of a state keep their nodes in a later one. -/
def Remembers (st st' : State) : Prop :=
  ∀ label b, st.labels.get? label = some b → st'.labels.get? label = some b

/-- The blank node of a term, if it is one, has been met. -/
def Met (st : State) (t : Term) : Prop :=
  ∀ b, t = .blank b → (st.labels.get? b.text).isSome

/-- The node that the table holds for a blank node. -/
def node (st : State) (b : BlankNode) : BlankNode := (st.labels.get? b.text).getD b

/-- The second state comes from the first by reading the terms: labels keep their nodes, and those
of the terms have one. -/
structure Meets (st : State) (terms : List Term) (st' : State) : Prop where
  labelled : st'.Labelled
  remembers : st.Remembers st'
  met : ∀ t ∈ terms, st'.Met t

theorem labelled_initial (next : Nat) (base : Option Iri) : (State.initial next base).Labelled where
  lt := fun _ _ h => by cases h
  inj := fun _ _ _ _ h => by cases h

theorem Met.mono {t : Term} (ht : st.Met t) (h : st.Remembers st') : st'.Met t := by
  intro b hb
  obtain ⟨b', hb'⟩ := Option.isSome_iff_exists.mp (ht b hb)
  rw [h _ _ hb']
  rfl

/-- A term that has been met keeps its name. -/
theorem Met.rename_eq {t : Term} (ht : st.Met t) (h : st.Remembers st') :
    t.rename st'.node = t.rename st.node := by
  cases t with
  | iri i => rfl
  | literal l => rfl
  | blank b =>
    obtain ⟨b', hb'⟩ := Option.isSome_iff_exists.mp (ht b rfl)
    rw [Term.rename, Term.rename, node, node, hb', h _ _ hb']

theorem Meets.refl (h : st.Labelled) : st.Meets [] st :=
  ⟨h, fun _ _ hb => hb, fun _ ht => by cases ht⟩

theorem Meets.trans {first second : List Term} (h : st.Meets first st')
    (h' : st'.Meets second st'') : st.Meets (first ++ second) st'' where
  labelled := h'.labelled
  remembers := fun label b hb => h'.remembers label b (h.remembers label b hb)
  met := by
    intro t ht
    rcases List.mem_append.mp ht with ht | ht
    · exact (h.met t ht).mono h'.remembers
    · exact h'.met t ht

/-- Different blank nodes that have been met have nodes with different numbers. -/
theorem Labelled.node_injOn (h : st.Labelled) {b b' : BlankNode} (hb : st.Met (.blank b))
    (hb' : st.Met (.blank b')) (hid : (st.node b).id = (st.node b').id) : b = b' := by
  obtain ⟨c, hc⟩ := Option.isSome_iff_exists.mp (hb b rfl)
  obtain ⟨c', hc'⟩ := Option.isSome_iff_exists.mp (hb' b' rfl)
  rw [node, node, hc, hc'] at hid
  exact BlankNode.text_injective (h.inj _ _ c c' hc hc' hid)

theorem Labelled.insert (h : st.Labelled) (label : String) :
    Labelled { st with
      nextBlank := st.nextBlank + 1
      labels := st.labels.insert label ⟨st.nextBlank, some label⟩ } where
  lt := by
    intro other b hb
    rcases Table.get?_insert_eq_some_iff.mp hb with ⟨-, rfl⟩ | ⟨-, hb⟩
    · exact Nat.lt_succ_self st.nextBlank
    · exact Nat.lt_succ_of_lt (h.lt other b hb)
  inj := by
    -- no node before the new one has its number
    intro first second b b' hb hb' hid
    rcases Table.get?_insert_eq_some_iff.mp hb with ⟨hfirst, rfl⟩ | ⟨-, hb⟩
    · rcases Table.get?_insert_eq_some_iff.mp hb' with ⟨hsecond, rfl⟩ | ⟨-, hb'⟩
      · rw [hfirst, hsecond]
      · exact absurd hid.symm (Nat.ne_of_lt (h.lt second b' hb'))
    · rcases Table.get?_insert_eq_some_iff.mp hb' with ⟨-, rfl⟩ | ⟨-, hb'⟩
      · exact absurd hid (Nat.ne_of_lt (h.lt first b hb))
      · exact h.inj first second b b' hb hb' hid

theorem meets_labelledBlank (h : st.Labelled) (b : BlankNode) :
    st.Meets [.blank b] (st.labelledBlank b.text).1 ∧
      (st.labelledBlank b.text).2 = .blank ((st.labelledBlank b.text).1.node b) := by
  rw [labelledBlank]
  cases hlabel : st.labels.get? b.text with
  | some c =>
    refine ⟨⟨h, fun _ _ hb => hb, ?_⟩, ?_⟩
    · intro t ht b' hb'
      obtain rfl := Term.blank.inj (hb'.symm.trans (List.mem_singleton.mp ht))
      rw [hlabel]
      rfl
    · simp only [node, hlabel]
      rfl
  | none =>
    have hself : (st.labels.insert b.text ⟨st.nextBlank, some b.text⟩).get? b.text =
        some ⟨st.nextBlank, some b.text⟩ := by rw [Table.get?_insert, if_pos rfl]
    refine ⟨⟨h.insert b.text, ?_, ?_⟩, ?_⟩
    · intro label c hc
      refine Table.get?_insert_eq_some_iff.mpr (Or.inr ⟨?_, hc⟩)
      rintro rfl
      cases hlabel.symm.trans hc
    · intro t ht b' hb'
      obtain rfl := Term.blank.inj (hb'.symm.trans (List.mem_singleton.mp ht))
      change ((st.labels.insert b'.text ⟨st.nextBlank, some b'.text⟩).get? b'.text).isSome = true
      rw [hself]
      rfl
    · simp only [node, hself]
      rfl

theorem meets_lookUp (h : st.Labelled) (t : Term) :
    st.Meets [t] (st.lookUp t).1 ∧ (st.lookUp t).2 = t.rename (st.lookUp t).1.node := by
  have hother : (∀ b, t ≠ .blank b) → st.Meets [t] st := by
    intro ht
    refine ⟨h, fun _ _ hb => hb, ?_⟩
    intro t' ht' b hb
    exact absurd (List.mem_singleton.mp ht' ▸ hb) (ht b)
  cases t with
  | iri i => exact ⟨hother (by simp), rfl⟩
  | literal l => exact ⟨hother (by simp), rfl⟩
  | blank b => exact meets_labelledBlank h b

/-- One triple is recorded under the names that its terms have afterwards. -/
theorem meets_record (h : st.Labelled) (t : Triple) :
    st.Meets [t.subject, t.predicate, t.object] (st.record t) ∧
      (st.record t).store.triples =
        Distinct.insertLast st.store.triples (t.rename (st.record t).node) := by
  obtain ⟨hs, hsubject⟩ := meets_lookUp h t.subject
  obtain ⟨hp, hpredicate⟩ := meets_lookUp hs.labelled t.predicate
  obtain ⟨ho, hobject⟩ := meets_lookUp hp.labelled t.object
  have hall := (hs.trans hp).trans ho
  refine ⟨⟨⟨hall.labelled.lt, hall.labelled.inj⟩, hall.remembers, hall.met⟩, ?_⟩
  have hpo : (st.lookUp t.subject).1.Remembers _ := (hp.trans ho).remembers
  -- a term that is looked up first keeps its name while the others are
  have hname : (⟨(st.lookUp t.subject).2, ((st.lookUp t.subject).1.lookUp t.predicate).2,
      (((st.lookUp t.subject).1.lookUp t.predicate).1.lookUp t.object).2⟩ : Triple) =
        t.rename (((st.lookUp t.subject).1.lookUp t.predicate).1.lookUp t.object).1.node := by
    rw [hsubject, hpredicate, hobject, Triple.rename,
      (hs.met t.subject (by simp)).rename_eq hpo,
      (hp.met t.predicate (by simp)).rename_eq ho.remembers]
  change (Store.insert _ _).triples = _
  rw [Store.triples_insert, hname]
  simp only [lookUp_store]
  rfl

/-- The terms of some triples. -/
def termsOf (ts : List Triple) : List Term :=
  ts.flatMap fun t => [t.subject, t.predicate, t.object]

/-- What is recorded for a list of triples is the list itself, under the names that its terms have
in the end. -/
theorem meets_recordAll (h : st.Labelled) (ts : List Triple) :
    st.Meets (termsOf ts) (st.recordAll ts) ∧
      (st.recordAll ts).store.triples =
        Distinct.union st.store.triples (ts.map (Triple.rename (st.recordAll ts).node)) := by
  induction ts generalizing st with
  | nil => exact ⟨.refl h, rfl⟩
  | cons t ts ih =>
    obtain ⟨hfirst, hstored⟩ := meets_record h t
    obtain ⟨hrest, hunion⟩ := ih hfirst.labelled
    refine ⟨hfirst.trans hrest, ?_⟩
    have hname : t.rename ((st.record t).recordAll ts).node = t.rename (st.record t).node := by
      rw [Triple.rename, Triple.rename,
        (hfirst.met t.subject (by simp)).rename_eq hrest.remembers,
        (hfirst.met t.predicate (by simp)).rename_eq hrest.remembers,
        (hfirst.met t.object (by simp)).rename_eq hrest.remembers]
    change ((st.record t).recordAll ts).store.triples =
      Distinct.union _ (t.rename ((st.record t).recordAll ts).node ::
        ts.map (Triple.rename ((st.record t).recordAll ts).node))
    rw [hunion, hstored, Distinct.union_cons, hname]

end State

/-! ## Stores -/

theorem mem_terms_iff {s : Store} {x : Term} : x ∈ s.terms ↔ x ∈ State.termsOf s.triples := by
  simp only [Store.terms, Distinct.mem_dedup, List.mem_append, List.mem_map, State.termsOf,
    List.mem_flatMap, List.mem_cons, List.not_mem_nil, or_false]
  constructor
  · rintro ((⟨t, ht, rfl⟩ | ⟨t, ht, rfl⟩) | ⟨t, ht, rfl⟩)
    · exact ⟨t, ht, Or.inl rfl⟩
    · exact ⟨t, ht, Or.inr (Or.inl rfl)⟩
    · exact ⟨t, ht, Or.inr (Or.inr rfl)⟩
  · rintro ⟨t, ht, rfl | rfl | rfl⟩
    · exact Or.inl (Or.inl ⟨t, ht, rfl⟩)
    · exact Or.inl (Or.inr ⟨t, ht, rfl⟩)
    · exact Or.inr ⟨t, ht, rfl⟩

/-- The written form of a store is read without an error and gives the triples of the store in their
order, with its blank nodes renamed one to one. -/
theorem readDocument_nTriples {s : Store} (hs : s.Writable) (next : Nat) :
    ∃ st f, (State.initial next none).readDocument s.nTriples = (st, .ok ()) ∧
      st.store.triples = s.triples.map (Triple.rename f) ∧
      ∀ b b', .blank b ∈ s.terms → .blank b' ∈ s.terms → ((f b).id = (f b').id ↔ b.id = b'.id) := by
  obtain ⟨hmeets, hunion⟩ := State.meets_recordAll (State.labelled_initial next none) s.triples
  have hmet : ∀ x ∈ s.terms, ((State.initial next none).recordAll s.triples).Met x :=
    fun x hx => hmeets.met x (mem_terms_iff.mp hx)
  have hinj := fun b b' (hb : .blank b ∈ s.terms) (hb' : .blank b' ∈ s.terms) =>
    hmeets.labelled.node_injOn (hmet _ hb) (hmet _ hb')
  refine ⟨(State.initial next none).recordAll s.triples,
    ((State.initial next none).recordAll s.triples).node, ?_, ?_, ?_⟩
  · have hread := readEntries_lines hs.triples (rfl : (State.initial next none).base = none)
      (rfl : skip (lines s.triples) = _)
    rw [State.readDocument, Store.nTriples, String.toList_ofList,
      show s.nTriplesChars = lines s.triples from rfl, hread]
  -- different triples stay different, so that none is dropped as a repetition
  · have hnodup : (s.triples.map
        (Triple.rename ((State.initial next none).recordAll s.triples).node)).Nodup := by
      refine List.Nodup.map_on ?_ s.nodup
      intro t ht u hu htu
      refine Triple.eq_of_rename_eq ?_ htu
      intro b b' hb hb' hnode
      exact hinj b b' (mem_terms_iff.mpr (List.mem_flatMap.mpr ⟨t, ht, hb⟩))
        (mem_terms_iff.mpr (List.mem_flatMap.mpr ⟨u, hu, hb'⟩)) (congrArg BlankNode.id hnode)
    rw [hunion]
    exact Distinct.union_eq_append hnodup
  · intro b b' hb hb'
    constructor
    · intro hid
      rw [hinj b b' hb hb' hid]
    · intro hid
      have hlabel := hs.label_eq b b' hb hb' hid
      obtain ⟨id, label⟩ := b
      obtain ⟨id', label'⟩ := b'
      obtain rfl : id = id' := hid
      obtain rfl : label = label' := hlabel
      rfl

/-- A store with a labelled and an unlabelled blank node, and literals of the three kinds. -/
def sample : Store := .ofList [
  ⟨.blank ⟨3, some "x"⟩, .iri ⟨"http://example.org/p"⟩, .blank ⟨7, none⟩⟩,
  ⟨.blank ⟨7, none⟩, .iri ⟨"http://example.org/p"⟩, .literal ⟨"say \"hi\"\n", .language "en-gb"⟩⟩,
  ⟨.blank ⟨7, none⟩, .iri ⟨"http://example.org/p"⟩, .literal ⟨"a\\b", .plain⟩⟩,
  ⟨.iri ⟨"http://example.org/s"⟩, .iri ⟨"http://example.org/p"⟩,
    .literal ⟨"1", .typed Xsd.integer⟩⟩]

theorem sample_writable : sample.Writable where
  triples := by
    have hparts : ∀ t ∈ sample.triples, (t.subject.isIndividual = true ∧ t.predicate.isIri = true) ∧
        t.subject.Writable ∧ t.predicate.Writable ∧ t.object.Writable := by decide
    intro t ht
    obtain ⟨⟨hindividual, hiri⟩, hs, hp, ho⟩ := hparts t ht
    exact ⟨hindividual, hiri, hs, hp, ho⟩
  label_eq := by
    have hblanks : ∀ b, .blank b ∈ sample.terms → b = ⟨3, some "x"⟩ ∨ b = ⟨7, none⟩ := by
      have hterms : ∀ t ∈ sample.terms, t.isAnonymous = true →
          t = .blank ⟨3, some "x"⟩ ∨ t = .blank ⟨7, none⟩ := by decide
      intro b hb
      simpa using hterms (.blank b) hb rfl
    intro b b' hb hb' hid
    rcases hblanks b hb with rfl | rfl
    · rcases hblanks b' hb' with rfl | rfl
      · rfl
      · cases hid
    · rcases hblanks b' hb' with rfl | rfl
      · cases hid
      · rfl

theorem readDocument_sample :
    sample.Writable ∧ ∃ st f, (State.initial 0 none).readDocument sample.nTriples = (st, .ok ()) ∧
      st.store.triples = sample.triples.map (Triple.rename f) ∧
      ∀ b b', .blank b ∈ sample.terms → .blank b' ∈ sample.terms →
        ((f b).id = (f b').id ↔ b.id = b'.id) :=
  ⟨sample_writable, readDocument_nTriples sample_writable 0⟩

end Turtle

end GraphConformance
