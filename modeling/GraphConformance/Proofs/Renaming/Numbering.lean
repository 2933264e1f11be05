import Mathlib.Algebra.Group.Embedding
import GraphConformance.Proofs.Renaming.Conformance
import GraphConformance.Proofs.Renaming.Reading

/-!
# The numbers of blank nodes decide nothing

A pass starts from three texts, read one after the other with one count of blank nodes. Before each
of them the count may have gone on, for other documents, as far as it likes. The blank nodes of two
such passes over the same texts differ by a renaming only (`recount`), and so do their outcomes.

Reading a text from a number on is reading it from zero on, renamed by a shift
(`Source.renamed_start`); its nodes are numbered between the two ends of the reading. Readings that
do not overlap can therefore be moved onto one another by one injective map (`injective_recount`).
-/

set_option autoImplicit false

namespace GraphConformance

/-- A document before it is read: its text, and what its reader knows beforehand. -/
structure Source where
  base : Option Iri
  names : List (String × String)
  text : String

namespace Source

/-- The reader of a text whose blank nodes are numbered from `n` on. -/
def start (source : Source) (n : Nat) : Turtle.State :=
  (Turtle.State.initial n source.base).declareAll source.names

/-- The triples of the text, and the first number that it leaves. -/
def read (source : Source) (n : Nat) : Except DocumentError (Store × Nat) :=
  match (source.start n).readDocument source.text with
  | (st, .ok _) => .ok (st.store, st.nextBlank)
  | (_, .error e) => .error (.unreadable e)

/-- The document of the text, and the first number that it leaves. -/
def readDocument (source : Source) (n : Nat) : Except DocumentError (Document × Nat) := do
  let (store, next) ← source.read n
  return (← Document.discover store, next)

/-- How many blank nodes the text makes. -/
def count (source : Source) : Nat :=
  ((source.start 0).readDocument source.text).1.nextBlank

end Source

/-- One value for each text of a pass. -/
structure PerText (α : Type) where
  ontology : α
  template : α
  individual : α

/-- The outcome of the pass over three texts, read one after the other with one count of blank
nodes; before each of them, the count goes on by a gap. -/
def PerText.conform (sources : PerText Source) (gaps : PerText Nat) (maxDepth : Nat)
    (options : Conformance.Options) :
    Except DocumentError (Except Failure Conformance.Accepted) := do
  let (ontology, n) ← sources.ontology.read gaps.ontology
  let (template, n) ← sources.template.readDocument (n + gaps.template)
  let (individual, _) ← sources.individual.readDocument (n + gaps.individual)
  return Conformance.conform ontology maxDepth individual template options

/-! ## One text, read from two numbers on -/

/-- Shifting up to a number and renumbering from there on is shifting to where that leads. -/
theorem Term.rename_shift {f : Nat ↪ Nat} {n n' k : Nat} (hf : ∀ i < k, f (n + i) = n' + i)
    {x : Term} (hx : x.NumberedBelow k) :
    (x.rename (BlankNode.renumber (addLeftEmbedding n))).rename (BlankNode.renumber f) =
      x.rename (BlankNode.renumber (addLeftEmbedding n')) := by
  cases x with
  | iri i => rfl
  | literal l => rfl
  | blank b =>
    change Term.blank ⟨f (n + b.id), b.label⟩ = .blank ⟨n' + b.id, b.label⟩
    rw [hf b.id (hx b rfl)]

theorem Triple.rename_shift {f : Nat ↪ Nat} {n n' k : Nat} (hf : ∀ i < k, f (n + i) = n' + i)
    {t : Triple} (ht : t.NumberedBelow k) :
    (t.rename (BlankNode.renumber (addLeftEmbedding n))).rename (BlankNode.renumber f) =
      t.rename (BlankNode.renumber (addLeftEmbedding n')) := by
  simp only [Triple.rename, Term.rename_shift hf ht.subject, Term.rename_shift hf ht.predicate,
    Term.rename_shift hf ht.object]

namespace Source

variable {f : Nat ↪ Nat} {n n' : Nat}

theorem renamed_start (source : Source) (n : Nat) :
    (source.start 0).Renamed (BlankNode.renumber (addLeftEmbedding n)) (source.start n) := by
  apply Turtle.State.Renamed.declareAll
  exact
    { prefixes := rfl
      base := rfl
      labels := Table.renamed_empty
      next := fun k label => by
        change (⟨n + (0 + k), label⟩ : BlankNode) = ⟨n + k, label⟩
        rw [Nat.zero_add]
      store := Store.renamed_empty _
      labels_below := fun _ _ h => nomatch h
      store_below := fun _ h => nomatch h }

/-- Readings of one text that start at two numbers: the second leaves the triples of the first,
renamed, and both go on by as many numbers as the text makes nodes. -/
structure ReadAlike (source : Source) (f : BlankNode → BlankNode) (n n' : Nat) {α : Type}
    (R : α → α → Prop) (answer answer' : α × Nat) : Prop where
  value : R answer.1 answer'.1
  next : answer.2 = n + source.count
  next' : answer'.2 = n' + source.count

theorem endAlike_read (source : Source) (hf : ∀ i < source.count, f (n + i) = n' + i) :
    EndAlike Eq (source.ReadAlike (BlankNode.renumber f) n n'
        (Store.Renamed (BlankNode.renumber f)))
      (source.read n) (source.read n') := by
  -- either reading is the reading from zero on, shifted
  have hread := fun m => (source.renamed_start m).readDocument source.text
  have hcount : ((source.start 0).readDocument source.text).1.nextBlank = source.count := rfl
  obtain ⟨hst, hresult⟩ := hread n
  obtain ⟨hst', hresult'⟩ := hread n'
  rw [read, read]
  generalize (source.start 0).readDocument source.text = first at *
  generalize (source.start n).readDocument source.text = second at *
  generalize (source.start n').readDocument source.text = third at *
  obtain ⟨st₀, result₀⟩ := first
  obtain ⟨st, result⟩ := second
  obtain ⟨st', result'⟩ := third
  obtain rfl : result = result₀ := hresult
  obtain rfl : result' = result := hresult'
  cases result' with
  | error e => exact .error rfl
  | ok _ =>
    -- the node that would come next is shifted as well, which says where the reading ends
    have hend : ∀ {m : Nat} {st : Turtle.State},
        st₀.Renamed (BlankNode.renumber (addLeftEmbedding m)) st →
        st.nextBlank = m + source.count := by
      intro m st hst
      have hnext := congrArg BlankNode.id (hst.next 0 none)
      rw [← hcount]
      exact hnext.symm
    refine .ok ⟨?_, hend hst, hend hst'⟩
    change st'.store.triples = st.store.triples.map _
    rw [hst.store, hst'.store, List.map_map]
    refine List.map_congr_left fun t ht => ?_
    exact (Triple.rename_shift hf (hcount ▸ hst.store_below t ht)).symm

theorem endAlike_readDocument (source : Source) (hf : ∀ i < source.count, f (n + i) = n' + i) :
    EndAlike Eq (source.ReadAlike (BlankNode.renumber f) n n'
        (Document.Renamed (BlankNode.renumber f)))
      (source.readDocument n) (source.readDocument n') := by
  refine (source.endAlike_read hf).bind ?_
  rintro ⟨store, next⟩ ⟨store', next'⟩ ⟨hstore, hnext, hnext'⟩
  refine (Document.endAlike_discover hstore).bind ?_
  intro d d' hd
  exact .ok ⟨hd, hnext, hnext'⟩

end Source

/-! ## Three texts -/

/-- The number that a node gets when three texts that make `counts` nodes are numbered from `first'`
on and no longer from `first` on. Nodes of other documents come behind. -/
def recount (counts first first' : PerText Nat) (i : Nat) : Nat :=
  if first.ontology ≤ i ∧ i < first.ontology + counts.ontology then
    first'.ontology + (i - first.ontology)
  else if first.template ≤ i ∧ i < first.template + counts.template then
    first'.template + (i - first.template)
  else if first.individual ≤ i ∧ i < first.individual + counts.individual then
    first'.individual + (i - first.individual)
  else first'.individual + counts.individual + i

/-- The texts that begin at `first` follow one another. -/
structure InOrder (counts first : PerText Nat) : Prop where
  template : first.ontology + counts.ontology ≤ first.template
  individual : first.template + counts.template ≤ first.individual

section Recount

variable {counts first first' : PerText Nat}

theorem injective_recount (h' : InOrder counts first') :
    Function.Injective (recount counts first first') := by
  obtain ⟨htemplate, hindividual⟩ := h'
  intro i j hij
  simp only [recount] at hij
  -- runs go to runs that stay apart, and all other numbers behind the last of them
  split_ifs at hij <;> omega

theorem recount_ontology {i : Nat} (hi : i < counts.ontology) :
    recount counts first first' (first.ontology + i) = first'.ontology + i := by
  rw [recount, if_pos (by omega), Nat.add_sub_cancel_left]

theorem recount_template (h : InOrder counts first) {i : Nat} (hi : i < counts.template) :
    recount counts first first' (first.template + i) = first'.template + i := by
  have := h.template
  rw [recount, if_neg (by omega), if_pos (by omega), Nat.add_sub_cancel_left]

theorem recount_individual (h : InOrder counts first) {i : Nat} (hi : i < counts.individual) :
    recount counts first first' (first.individual + i) = first'.individual + i := by
  have := h.template
  have := h.individual
  rw [recount, if_neg (by omega), if_neg (by omega), if_pos (by omega), Nat.add_sub_cancel_left]

end Recount

namespace PerText

/-- How many nodes each text makes. -/
def counts (sources : PerText Source) : PerText Nat :=
  ⟨sources.ontology.count, sources.template.count, sources.individual.count⟩

/-- The first numbers of the texts when their readings are `gaps` apart. -/
def first (sources : PerText Source) (gaps : PerText Nat) : PerText Nat :=
  let template := gaps.ontology + sources.ontology.count + gaps.template
  ⟨gaps.ontology, template, template + sources.template.count + gaps.individual⟩

theorem inOrder_first (sources : PerText Source) (gaps : PerText Nat) :
    InOrder sources.counts (sources.first gaps) :=
  ⟨Nat.le_add_right _ _, Nat.le_add_right _ _⟩

/-- The renumbering that leads from the nodes of one pass to those of another one. -/
def renumbering (sources : PerText Source) (gaps gaps' : PerText Nat) : Nat ↪ Nat :=
  ⟨recount sources.counts (sources.first gaps) (sources.first gaps'),
    injective_recount (sources.inOrder_first gaps')⟩

theorem endAlike_conform (sources : PerText Source) (gaps gaps' : PerText Nat) (maxDepth : Nat)
    (options : Conformance.Options) :
    EndAlike Eq
      (EndAlike (Failure.Renamed (BlankNode.renumber (sources.renumbering gaps gaps')))
        (Conformance.Accepted.Renamed (BlankNode.renumber (sources.renumbering gaps gaps'))))
      (sources.conform gaps maxDepth options) (sources.conform gaps' maxDepth options) := by
  have h := sources.inOrder_first gaps
  have hontology : ∀ i < sources.ontology.count, sources.renumbering gaps gaps'
      ((sources.first gaps).ontology + i) = (sources.first gaps').ontology + i :=
    fun i hi => recount_ontology (show i < sources.counts.ontology from hi)
  have htemplate : ∀ i < sources.template.count, sources.renumbering gaps gaps'
      ((sources.first gaps).template + i) = (sources.first gaps').template + i :=
    fun i hi => recount_template h hi
  have hindividual : ∀ i < sources.individual.count, sources.renumbering gaps gaps'
      ((sources.first gaps).individual + i) = (sources.first gaps').individual + i :=
    fun i hi => recount_individual h hi
  refine (sources.ontology.endAlike_read hontology).bind ?_
  rintro ⟨ontology, n⟩ ⟨ontology', n'⟩ ⟨hontology, hn, hn'⟩
  dsimp only at hn hn'
  subst hn hn'
  refine (sources.template.endAlike_readDocument htemplate).bind ?_
  rintro ⟨template, n⟩ ⟨template', n'⟩ ⟨htemplate, hn, hn'⟩
  dsimp only at hn hn'
  subst hn hn'
  refine (sources.individual.endAlike_readDocument hindividual).bind ?_
  rintro ⟨individual, n⟩ ⟨individual', n'⟩ ⟨hindividual, -, -⟩
  exact .ok (Conformance.endAlike_conform hontology hindividual htemplate maxDepth options)

end PerText

namespace Conformance

/-- The pass does not depend on the identity of blank nodes. Over an ontology and documents whose
nodes are renamed at once it ends alike: it fails at the same stage and for the same reason, up to
the renaming, or accepts, and then everything that it accepts is renamed. In particular the count of
blank nodes that was reached when a text was read never decides a pass. -/
theorem conform_rename (maxDepth : Nat) (options : Options) :
    (∀ (ρ : BlankNode ↪ BlankNode) (ontology : Store) (individual template : Document),
      EndAlike (Failure.Renamed ρ) (Accepted.Renamed ρ)
        (conform ontology maxDepth individual template options)
        (conform (ontology.rename ρ) maxDepth (individual.rename ρ) (template.rename ρ) options)) ∧
    ∀ (sources : PerText Source) (gaps gaps' : PerText Nat), ∃ f : Nat ↪ Nat,
      EndAlike Eq
        (EndAlike (Failure.Renamed (BlankNode.renumber f))
          (Accepted.Renamed (BlankNode.renumber f)))
        (sources.conform gaps maxDepth options) (sources.conform gaps' maxDepth options) := by
  constructor
  · intro ρ ontology individual template
    exact endAlike_conform (ontology.renamed_rename ρ) (individual.renamed_rename ρ)
      (template.renamed_rename ρ) maxDepth options
  · intro sources gaps gaps'
    exact ⟨sources.renumbering gaps gaps', sources.endAlike_conform gaps gaps' maxDepth options⟩

end Conformance

end GraphConformance
