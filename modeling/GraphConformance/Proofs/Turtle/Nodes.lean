import GraphConformance.Proofs.Renaming.Numbering
import GraphConformance.Proofs.Store.Queries
import GraphConformance.Proofs.Turtle.Mentions

/-!
# Whose a blank node is

While a text is read, its blank nodes are accounted for (`Course.Accounted`): they are numbered from
the number at which the reading began up to the next one, the table of labels holds exactly the
labels that have occurred, two occurrences are of one node exactly when they are of one label, and
the triples hold no other blank node. Every step of a reading keeps this (`Accounted.step`), so it
holds at its end (`Accounted.run`), be that the end of the text or an error.

Calls that follow one another with one count of blank nodes therefore number theirs in runs that do
not overlap, and merging what they read puts no triple at a node of another call (`nodes_of_calls`).
-/

set_option autoImplicit false

namespace GraphConformance

open Vocabulary

namespace Turtle

/-! ## The cells of a list -/

namespace State

variable {st : State} {items : List Term}

theorem mem_cells {b : BlankNode} (h : b ∈ st.cells items) :
    st.nextBlank ≤ b.id ∧ b.id < st.nextBlank + items.length := by
  induction items with
  | nil => cases h
  | cons item items ih =>
    rw [List.length_cons]
    rcases List.mem_cons.mp h with rfl | h
    · exact ⟨Nat.le_add_right _ _, by dsimp only; omega⟩
    · obtain ⟨hle, hlt⟩ := ih h
      exact ⟨hle, by omega⟩

theorem exists_mem_cells {i : Nat} (hle : st.nextBlank ≤ i)
    (hlt : i < st.nextBlank + items.length) : ∃ b ∈ st.cells items, b.id = i := by
  induction items with
  | nil => exact absurd hlt (Nat.not_lt.mpr hle)
  | cons item items ih =>
    rw [List.length_cons, ← Nat.add_assoc, Nat.lt_succ_iff_lt_or_eq] at hlt
    rcases hlt with hlt | rfl
    · obtain ⟨b, hb, hid⟩ := ih hlt
      exact ⟨b, List.mem_cons_of_mem _ hb, hid⟩
    · exact ⟨_, List.mem_cons_self, rfl⟩

theorem pairwise_cells : (st.cells items).Pairwise (·.id ≠ ·.id) := by
  induction items with
  | nil => exact .nil
  | cons item items ih =>
    refine .cons ?_ ih
    intro b hb
    exact (Nat.ne_of_lt (mem_cells hb).2).symm

/-- The list of one more item: a cell is made, and two triples leave it. -/
theorem addList_cons (item : Term) :
    (st.addList (item :: items)).1 = { (st.addList items).1 with
      nextBlank := st.nextBlank + items.length + 1
      store := ((st.addList items).1.store.insert
          ⟨.blank ⟨st.nextBlank + items.length, none⟩, .iri Rdf.first, item⟩).insert
        ⟨.blank ⟨st.nextBlank + items.length, none⟩, .iri Rdf.rest,
          listHead (st.cells items)⟩ } := by
  rw [addList, ← nextBlank_addList, ← addList_snd]
  rfl

theorem labels_addList : (st.addList items).1.labels = st.labels := by
  induction items with
  | nil => rfl
  | cons item items ih =>
    rw [addList_cons]
    exact ih

/-- The triples of a list leave its cells, for an item, for another cell or for the end. -/
theorem mem_triples_addList {t : Triple} (h : t ∈ (st.addList items).1.store.triples) :
    t ∈ st.store.triples ∨ (∃ b ∈ st.cells items, t.subject = .blank b) ∧
      t.predicate.isIri = true ∧ (t.object ∈ items ∨ t.object = .iri Rdf.nil ∨
        ∃ b ∈ st.cells items, t.object = .blank b) := by
  induction items with
  | nil => exact Or.inl h
  | cons item items ih =>
    rw [addList_cons] at h
    dsimp only at h
    rw [Store.triples_insert, Distinct.mem_insertLast, Store.triples_insert,
      Distinct.mem_insertLast] at h
    rcases h with (h | rfl) | rfl
    · rcases ih h with h | ⟨⟨b, hb, hsubject⟩, hpredicate, hobject⟩
      · exact Or.inl h
      · refine Or.inr ⟨⟨b, List.mem_cons_of_mem _ hb, hsubject⟩, hpredicate, ?_⟩
        rcases hobject with hitem | hnil | ⟨b, hb, hobject⟩
        · exact Or.inl (List.mem_cons_of_mem _ hitem)
        · exact Or.inr (Or.inl hnil)
        · exact Or.inr (Or.inr ⟨b, List.mem_cons_of_mem _ hb, hobject⟩)
    · exact Or.inr ⟨⟨_, List.mem_cons_self, rfl⟩, rfl, Or.inl List.mem_cons_self⟩
    · refine Or.inr ⟨⟨_, List.mem_cons_self, rfl⟩, rfl, Or.inr ?_⟩
      -- the next cell, or the end when this one is the last
      cases hcells : st.cells items with
      | nil => exact Or.inl rfl
      | cons b more =>
        refine Or.inr ⟨b, ?_, rfl⟩
        rw [cells, hcells]
        exact List.mem_cons_of_mem _ List.mem_cons_self

end State

/-! ## Accounts -/

/-- The two occurrences are of one node exactly when they are of one label. -/
def Occurrence.Distinguished (o o' : Occurrence) : Prop :=
  o.node.id = o'.node.id ↔ ∃ name, o.label = some name ∧ o'.label = some name

instance : Std.Symm Occurrence.Distinguished where
  symm := by
    intro o o' h
    rw [Occurrence.Distinguished] at h ⊢
    rw [eq_comm, h]
    exact exists_congr fun _ => and_comm

namespace Course

variable {first : Nat} {c c' : Course} {st : State} {ms : List Mention}

/-- The blank nodes of a triple have occurred on the way. -/
structure KnowsParts (c : Course) (t : Triple) : Prop where
  subject : c.Knows t.subject
  predicate : c.Knows t.predicate
  object : c.Knows t.object

theorem KnowsParts.mono {t : Triple} (ht : c.KnowsParts t) (h : c.mentions <+: c'.mentions) :
    c'.KnowsParts t :=
  ⟨ht.subject.mono h, ht.predicate.mono h, ht.object.mono h⟩

theorem occurrences_on :
    (c.on st ms).occurrences = c.occurrences ++ ms.flatMap Mention.occurrences := by
  rw [occurrences, on, List.flatMap_append, occurrences]

theorem mem_occurrences_on {o : Occurrence} : o ∈ (c.on st ms).occurrences ↔
    o ∈ c.occurrences ∨ o ∈ ms.flatMap Mention.occurrences := by
  rw [occurrences_on, List.mem_append]

/-- The blank nodes of a reading whose nodes are numbered from `first` on. -/
structure Accounted (first : Nat) (c : Course) : Prop where
  first_le : first ≤ c.state.nextBlank
  range : ∀ o ∈ c.occurrences, first ≤ o.node.id ∧ o.node.id < c.state.nextBlank
  made : ∀ i, first ≤ i → i < c.state.nextBlank → ∃ o ∈ c.occurrences, o.node.id = i
  table : ∀ name b, c.state.labels.get? name = some b ↔ ⟨some name, b⟩ ∈ c.occurrences
  distinguished : c.occurrences.Pairwise Occurrence.Distinguished
  triples : ∀ t ∈ c.state.store.triples, c.KnowsParts t

namespace Accounted

theorem triples_on {t : Triple} (h : c.Accounted first) (ms : List Mention)
    (ht : t ∈ c.state.store.triples) : (c.on st ms).KnowsParts t :=
  (h.triples t ht).mono (List.prefix_append _ _)

/-- Nodes without label that are numbered behind all others, each of them once. -/
theorem unlabelled (h : c.Accounted first) (hle : c.state.nextBlank ≤ st.nextBlank)
    (hlabels : st.labels = c.state.labels)
    (hnew : ∀ o ∈ ms.flatMap Mention.occurrences, o.label = none ∧
      c.state.nextBlank ≤ o.node.id ∧ o.node.id < st.nextBlank)
    (hmade : ∀ i, c.state.nextBlank ≤ i → i < st.nextBlank →
      ∃ o ∈ ms.flatMap Mention.occurrences, o.node.id = i)
    (hdistinct : (ms.flatMap Mention.occurrences).Pairwise (·.node.id ≠ ·.node.id))
    (htriples : ∀ t ∈ st.store.triples,
      t ∈ c.state.store.triples ∨ (c.on st ms).KnowsParts t) :
    (c.on st ms).Accounted first where
  first_le := Nat.le_trans h.first_le hle
  range := by
    intro o ho
    rcases mem_occurrences_on.mp ho with ho | ho
    · exact ⟨(h.range o ho).1, Nat.lt_of_lt_of_le (h.range o ho).2 hle⟩
    · exact ⟨Nat.le_trans h.first_le (hnew o ho).2.1, (hnew o ho).2.2⟩
  made := by
    intro i hfirst hi
    rcases Nat.lt_or_ge i c.state.nextBlank with hlt | hge
    · obtain ⟨o, ho, hid⟩ := h.made i hfirst hlt
      exact ⟨o, mem_occurrences_on.mpr (Or.inl ho), hid⟩
    · obtain ⟨o, ho, hid⟩ := hmade i hge hi
      exact ⟨o, mem_occurrences_on.mpr (Or.inr ho), hid⟩
  table := by
    intro name b
    rw [mem_occurrences_on]
    change st.labels.get? name = some b ↔ _
    rw [hlabels, h.table, iff_self_or]
    intro ho
    cases (hnew _ ho).1
  distinguished := by
    rw [occurrences_on, List.pairwise_append]
    refine ⟨h.distinguished, hdistinct.imp_of_mem ?_, ?_⟩
    · intro o o' ho _ hne
      refine iff_of_false hne ?_
      rintro ⟨name, hname, -⟩
      cases (hnew o ho).1.symm.trans hname
    · intro o ho o' ho'
      refine iff_of_false ?_ ?_
      · have := (h.range o ho).2
        have := (hnew o' ho').2.1
        omega
      · rintro ⟨name, -, hname⟩
        cases (hnew o' ho').1.symm.trans hname
  triples := by
    intro t ht
    rcases htriples t ht with ht | ht
    · exact h.triples_on ms ht
    · exact ht

/-- A step that makes no node. -/
theorem unchanged (h : c.Accounted first) (hnext : st.nextBlank = c.state.nextBlank)
    (hlabels : st.labels = c.state.labels) (hnone : ms.flatMap Mention.occurrences = [])
    (htriples : ∀ t ∈ st.store.triples,
      t ∈ c.state.store.triples ∨ (c.on st ms).KnowsParts t) :
    (c.on st ms).Accounted first := by
  refine h.unlabelled (Nat.le_of_eq hnext.symm) hlabels ?_ ?_ ?_ htriples
  · rw [hnone]
    exact fun o ho => by cases ho
  · intro i hle hlt
    exact absurd hlt (Nat.not_lt.mpr (hnext ▸ hle))
  · rw [hnone]
    exact .nil

theorem distinguished_of_mem (h : c.Accounted first) {name : String} {b : BlankNode}
    (hknown : c.state.labels.get? name = some b) :
    ∀ o ∈ c.occurrences, o.Distinguished ⟨some name, b⟩ := by
  intro o ho
  by_cases heq : o = ⟨some name, b⟩
  · subst heq
    exact iff_of_true rfl ⟨name, rfl, rfl⟩
  · exact h.distinguished.forall ho ((h.table name b).mp hknown) heq

/-- A label that has occurred stands for the node that it stood for. -/
theorem known_label (h : c.Accounted first) {name : String} {b : BlankNode}
    (hknown : c.state.labels.get? name = some b) :
    (c.on c.state [.label name b]).Accounted first := by
  -- the occurrence is one that there was already, so nothing is said of other ones
  have hold : ⟨some name, b⟩ ∈ c.occurrences := (h.table name b).mp hknown
  have hmem : ∀ {o : Occurrence}, o ∈ (c.on c.state [.label name b]).occurrences →
      o ∈ c.occurrences := by
    intro o ho
    rcases mem_occurrences_on.mp ho with ho | ho
    · exact ho
    · rwa [List.mem_singleton.mp ho]
  exact {
    first_le := h.first_le
    range := fun o ho => h.range o (hmem ho)
    made := by
      intro i hfirst hi
      obtain ⟨o, ho, hid⟩ := h.made i hfirst hi
      exact ⟨o, mem_occurrences_on.mpr (Or.inl ho), hid⟩
    table := by
      intro name' b'
      exact (h.table name' b').trans ⟨fun ho => mem_occurrences_on.mpr (Or.inl ho), hmem⟩
    distinguished := by
      rw [occurrences_on, List.pairwise_append]
      refine ⟨h.distinguished, List.pairwise_singleton _ _, ?_⟩
      intro o ho o' ho'
      obtain rfl := List.mem_singleton.mp ho'
      exact h.distinguished_of_mem hknown o ho
    triples := fun t ht => h.triples_on _ ht }

/-- A label that has not occurred stands for a new node. -/
theorem new_label (h : c.Accounted first) {name : String}
    (hnew : c.state.labels.get? name = none) :
    (c.on { c.state with
        nextBlank := c.state.nextBlank + 1
        labels := c.state.labels.insert name ⟨c.state.nextBlank, some name⟩ }
      [.label name ⟨c.state.nextBlank, some name⟩]).Accounted first where
  first_le := Nat.le_succ_of_le h.first_le
  range := by
    intro o ho
    rcases mem_occurrences_on.mp ho with ho | ho
    · exact ⟨(h.range o ho).1, Nat.lt_succ_of_lt (h.range o ho).2⟩
    · obtain rfl := List.mem_singleton.mp ho
      exact ⟨h.first_le, Nat.lt_succ_self _⟩
  made := by
    intro i hfirst hi
    rcases Nat.lt_succ_iff_lt_or_eq.mp hi with hlt | rfl
    · obtain ⟨o, ho, hid⟩ := h.made i hfirst hlt
      exact ⟨o, mem_occurrences_on.mpr (Or.inl ho), hid⟩
    · exact ⟨_, mem_occurrences_on.mpr (Or.inr List.mem_cons_self), rfl⟩
  table := by
    intro name' b
    rw [mem_occurrences_on]
    refine Table.get?_insert_eq_some_iff.trans ⟨?_, ?_⟩
    · rintro (⟨rfl, rfl⟩ | ⟨-, ho⟩)
      · exact Or.inr (List.mem_singleton_self _)
      · exact Or.inl ((h.table name' b).mp ho)
    · rintro (ho | ho)
      · have hlabel := (h.table name' b).mpr ho
        refine Or.inr ⟨?_, hlabel⟩
        rintro rfl
        cases hnew.symm.trans hlabel
      · obtain ⟨hname, rfl⟩ := Occurrence.mk.inj (List.mem_singleton.mp ho)
        exact Or.inl ⟨Option.some.inj hname, rfl⟩
  distinguished := by
    rw [occurrences_on, List.pairwise_append]
    refine ⟨h.distinguished, List.pairwise_singleton _ _, ?_⟩
    intro o ho o' ho'
    obtain rfl := List.mem_singleton.mp ho'
    -- the number is behind all others, and an earlier occurrence of the label would be in the table
    refine iff_of_false (Nat.ne_of_lt (h.range o ho).2) ?_
    rintro ⟨name', hname, hname'⟩
    obtain rfl := Option.some.inj hname'
    have hlabel : c.state.labels.get? name = some o.node := by
      rw [h.table, ← hname]
      exact ho
    cases hnew.symm.trans hlabel
  triples := fun t ht => h.triples_on _ ht

/-- The cells of a collection are new nodes, and its triples hold no others but those of its
items. -/
theorem collection (h : c.Accounted first) {items : List Term} (hitems : ∀ x ∈ items, c.Knows x) :
    (c.on (c.state.addList items).1 [.collection items (c.state.cells items)]).Accounted
      first := by
  have hbefore : c.mentions <+:
      (c.on (c.state.addList items).1 [.collection items (c.state.cells items)]).mentions :=
    List.prefix_append _ _
  have hcell : ∀ b ∈ c.state.cells items,
      (c.on (c.state.addList items).1 [.collection items (c.state.cells items)]).Knows
        (.blank b) :=
    fun b hb => knows_on (o := ⟨none, b⟩) (List.mem_map_of_mem hb)
  have hoccurrences : [Mention.collection items (c.state.cells items)].flatMap
      Mention.occurrences = (c.state.cells items).map (⟨none, ·⟩) := List.append_nil _
  refine h.unlabelled ?_ State.labels_addList ?_ ?_ ?_ ?_
  · rw [State.nextBlank_addList]
    exact Nat.le_add_right _ _
  · intro o ho
    rw [hoccurrences] at ho
    obtain ⟨b, hb, rfl⟩ := List.mem_map.mp ho
    rw [State.nextBlank_addList]
    exact ⟨rfl, State.mem_cells hb⟩
  · intro i hle hlt
    rw [State.nextBlank_addList] at hlt
    obtain ⟨b, hb, hid⟩ := State.exists_mem_cells hle hlt
    rw [hoccurrences]
    exact ⟨_, List.mem_map_of_mem hb, hid⟩
  · rw [hoccurrences, List.pairwise_map]
    exact State.pairwise_cells
  · intro t ht
    rcases State.mem_triples_addList ht with ht | ⟨⟨b, hb, hsubject⟩, hpredicate, hobject⟩
    · exact Or.inl ht
    · refine Or.inr ⟨hsubject ▸ hcell b hb, knows_of_isIri hpredicate, ?_⟩
      rcases hobject with hitem | hnil | ⟨b', hb', hobject⟩
      · exact (hitems _ hitem).mono hbefore
      · exact hnil ▸ knows_iri _ _
      · exact hobject ▸ hcell b' hb'

/-- Every step of a reading accounts for the nodes that it mentions. -/
theorem step (h : c.Accounted first) (hstep : c.Step c') : c'.Accounted first := by
  cases hstep with
  | reference text =>
    exact h.unchanged rfl rfl rfl fun t ht => Or.inl ht
  | label name =>
    rw [State.labelledBlank, State.labelNode]
    cases hlabel : c.state.labels.get? name with
    | some b => exact h.known_label hlabel
    | none => exact h.new_label hlabel
  | bracket =>
    refine h.unlabelled (Nat.le_succ _) rfl ?_ ?_ (List.pairwise_singleton _ _)
      fun t ht => Or.inl ht
    · intro o ho
      obtain rfl := List.mem_singleton.mp ho
      exact ⟨rfl, Nat.le_refl _, Nat.lt_succ_self _⟩
    · intro i hle hlt
      exact ⟨_, List.mem_singleton_self _, Nat.le_antisymm hle (Nat.lt_succ_iff.mp hlt)⟩
  | @collection items hitems => exact h.collection hitems
  | triple hsubject hindividual hpredicate hobject =>
    refine h.unchanged rfl rfl rfl ?_
    intro t ht
    change t ∈ (c.state.store.insert _).triples at ht
    rw [Store.triples_insert, Distinct.mem_insertLast] at ht
    rcases ht with ht | rfl
    · exact Or.inl ht
    · exact Or.inr ⟨hsubject.mono (List.prefix_append _ _), knows_of_isIri hpredicate,
        hobject.mono (List.prefix_append _ _)⟩
  | declare label space =>
    exact h.unchanged rfl rfl rfl fun t ht => Or.inl ht
  | rebase base =>
    exact h.unchanged rfl rfl rfl fun t ht => Or.inl ht

/-- A number belongs to one node. -/
theorem node_eq (h : c.Accounted first) {o o' : Occurrence} (ho : o ∈ c.occurrences)
    (ho' : o' ∈ c.occurrences) (hid : o.node.id = o'.node.id) : o.node = o'.node := by
  by_cases heq : o = o'
  · rw [heq]
  · obtain ⟨name, hname, hname'⟩ := (h.distinguished.forall ho ho' heq).mp hid
    have hnode : c.state.labels.get? name = some o.node := (h.table name _).mpr (hname ▸ ho)
    have hnode' : c.state.labels.get? name = some o'.node := (h.table name _).mpr (hname' ▸ ho')
    exact Option.some.inj (hnode.symm.trans hnode')

theorem run (h : c.Accounted first) (hrun : c.Leads c') : c'.Accounted first := by
  induction hrun with
  | refl => exact h
  | tail _ hstep ih => exact ih.step hstep

end Accounted

end Course

end Turtle

/-! ## Calls -/

namespace Source

open Turtle

/-- A reader accounts for the blank nodes of its text from its first number on. -/
theorem accounted_start (source : Source) (n : Nat) :
    Course.Accounted n ⟨source.start n, []⟩ := by
  have hinitial : Course.Accounted n ⟨State.initial n source.base, []⟩ :=
    { first_le := Nat.le_refl _
      range := fun o ho => by cases ho
      made := fun i hle hlt => absurd hlt (Nat.not_lt.mpr hle)
      table := fun name b => ⟨fun h => (by cases h), fun h => (by cases h)⟩
      distinguished := .nil
      triples := fun t ht => by cases ht }
  have hnames : ∀ (names : List (String × String)) (st : State),
      Course.Accounted n ⟨st, []⟩ → Course.Accounted n ⟨st.declareAll names, []⟩ := by
    intro names
    induction names with
    | nil => exact fun _ h => h
    | cons name names ih => exact fun st h => ih _ (h.step (.declare name.1 name.2))
  exact hnames source.names _ hinitial

end Source

/-- One call of a reader: its text, and the count of blank nodes at which it begins. -/
structure Call where
  source : Source
  first : Nat

namespace Call

open Turtle

/-- The state that the call leaves, at the end of its text or at an error. -/
def final (call : Call) : State :=
  ((call.source.start call.first).readDocument call.source.text).1

/-- The count of blank nodes behind the call. -/
def next (call : Call) : Nat := call.final.nextBlank

/-- The triples that the call has read. -/
def store (call : Call) : Store := call.final.store

/-- The occurrences of blank nodes in the text, as far as it has been read. -/
def occurrences (call : Call) : List Occurrence :=
  ((call.source.start call.first).mentions call.source.text).flatMap Mention.occurrences

/-- Calls that follow one another with one count of blank nodes, whether they fail or not. -/
def inTurn (n : Nat) : List Source → List Call
  | [] => []
  | source :: sources => ⟨source, n⟩ :: inTurn (Call.mk source n).next sources

/-- The call accounts for its blank nodes. -/
theorem accounted (call : Call) : Course.Accounted call.first
    ⟨call.final, (call.source.start call.first).mentions call.source.text⟩ :=
  (call.source.accounted_start call.first).run (leads_readDocument _ call.source.text)

theorem first_le_next (call : Call) : call.first ≤ call.next := call.accounted.first_le

/-- The blank nodes of what has been read occur in the text. -/
theorem exists_occurrence {call : Call} {b : BlankNode}
    (h : call.store.mentions (.blank b) = true) : ∃ o ∈ call.occurrences, o.node = b := by
  obtain ⟨t, ht, hb⟩ := Store.mentions_iff.mp h
  have hparts := call.accounted.triples t ht
  rcases hb with hb | hb | hb
  · exact hparts.subject b hb
  · exact hparts.predicate b hb
  · exact hparts.object b hb

theorem id_range {call : Call} {b : BlankNode} (h : call.store.mentions (.blank b) = true) :
    call.first ≤ b.id ∧ b.id < call.next := by
  obtain ⟨o, ho, rfl⟩ := exists_occurrence h
  exact call.accounted.range o ho

theorem le_first_of_mem {n : Nat} {sources : List Source} {call : Call}
    (h : call ∈ inTurn n sources) : n ≤ call.first := by
  induction sources generalizing n with
  | nil => cases h
  | cons source sources ih =>
    rcases List.mem_cons.mp h with rfl | h
    · exact Nat.le_refl n
    · exact Nat.le_trans (first_le_next ⟨source, n⟩) (ih h)

/-- Each call begins behind all nodes of the calls before it. -/
theorem pairwise_inTurn (n : Nat) (sources : List Source) :
    (inTurn n sources).Pairwise fun call call' => call.next ≤ call'.first := by
  induction sources generalizing n with
  | nil => exact .nil
  | cons source sources ih => exact .cons (fun _ h => le_first_of_mem h) (ih _)

/-- The numbers of the two calls do not overlap. -/
def Apart (call call' : Call) : Prop := call.next ≤ call'.first ∨ call'.next ≤ call.first

instance : Std.Symm Apart := ⟨fun _ _ => Or.symm⟩

/-- A number of a blank node is a number of one call. -/
theorem eq_of_mem_range {n : Nat} {sources : List Source} {call call' : Call} {i : Nat}
    (h : call ∈ inTurn n sources) (h' : call' ∈ inTurn n sources)
    (hi : call.first ≤ i ∧ i < call.next) (hi' : call'.first ≤ i ∧ i < call'.next) :
    call = call' := by
  have hapart : (inTurn n sources).Pairwise Apart := (pairwise_inTurn n sources).imp Or.inl
  by_contra hne
  rcases hapart.forall h h' hne with hle | hle <;> omega

/-- Documents do not share blank nodes. Of calls that follow one another, whether they fail or not,
each has a run of numbers of its own, which are the numbers of the nodes that occur in its text; two
occurrences in it are of one node exactly when they are of one label, so that each property list and
each cell of a collection is a node of its own. What it reads holds no other blank nodes. The nodes
of two calls therefore differ, and whatever is merged, the triples at a node of a call are triples
that the call has read. -/
theorem nodes_of_calls (n : Nat) (sources : List Source) :
    (∀ call ∈ inTurn n sources,
      (∀ i, (∃ o ∈ call.occurrences, o.node.id = i) ↔ call.first ≤ i ∧ i < call.next) ∧
      call.occurrences.Pairwise (fun o o' =>
        o.node.id = o'.node.id ↔ ∃ name, o.label = some name ∧ o'.label = some name) ∧
      ∀ b, call.store.mentions (.blank b) = true → ∃ o ∈ call.occurrences, o.node = b) ∧
    (inTurn n sources).Pairwise (fun call call' => call.next ≤ call'.first) ∧
    (∀ call ∈ inTurn n sources, ∀ call' ∈ inTurn n sources, ∀ b b',
      call.store.mentions (.blank b) = true → call'.store.mentions (.blank b') = true →
        b.id = b'.id → call = call' ∧ b = b') ∧
    ∀ merged ⊆ inTurn n sources, ∀ call ∈ inTurn n sources, ∀ b,
      call.store.mentions (.blank b) = true →
        ∀ t ∈ ((merged.map Call.store).foldl Store.merge ∅).triples,
          t.subject = .blank b ∨ t.predicate = .blank b ∨ t.object = .blank b →
            t ∈ call.store.triples := by
  have hsame : ∀ call ∈ inTurn n sources, ∀ call' ∈ inTurn n sources, ∀ b b',
      call.store.mentions (.blank b) = true → call'.store.mentions (.blank b') = true →
        b.id = b'.id → call = call' ∧ b = b' := by
    intro call hcall call' hcall' b b' hb hb' hid
    obtain rfl := eq_of_mem_range hcall hcall' (id_range hb) (hid ▸ id_range hb')
    obtain ⟨o, ho, rfl⟩ := exists_occurrence hb
    obtain ⟨o', ho', rfl⟩ := exists_occurrence hb'
    exact ⟨rfl, call.accounted.node_eq ho ho' hid⟩
  refine ⟨?_, pairwise_inTurn n sources, hsame, ?_⟩
  · intro call _
    refine ⟨fun i => ⟨?_, ?_⟩, call.accounted.distinguished, fun b => exists_occurrence⟩
    · rintro ⟨o, ho, rfl⟩
      exact call.accounted.range o ho
    · rintro ⟨hfirst, hnext⟩
      exact call.accounted.made i hfirst hnext
  · intro merged hmerged call hcall b hb t ht hholds
    rw [Store.mem_foldl_merge] at ht
    rcases ht with ht | ⟨store, hstore, ht⟩
    · cases ht
    · obtain ⟨call', hcall', rfl⟩ := List.mem_map.mp hstore
      have hb' : call'.store.mentions (.blank b) = true := Store.mentions_iff.mpr ⟨t, ht, hholds⟩
      obtain ⟨rfl, -⟩ := hsame call hcall call' (hmerged hcall') b b hb hb' rfl
      exact ht

end Call

end GraphConformance
