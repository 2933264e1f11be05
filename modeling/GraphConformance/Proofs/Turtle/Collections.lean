import GraphConformance.Proofs.Store.Chains
import GraphConformance.Proofs.Turtle.Concatenation
import GraphConformance.Proofs.Turtle.Nodes

/-!
# Collections are read back

The cells of a collection are new when they are made, so the first triples that leave them are those
of the collection itself (`chain_addList`). Later triples come behind, also those of a statement
that the collection starts, and leave the chain of cells as it is. Whatever has been read, every
collection that occurred is in the store with all its items (`Course.ReadBack.run`).
-/

set_option autoImplicit false

namespace GraphConformance

open Text Vocabulary

namespace Turtle

/-- No triple leaves a cell that is still to be made. -/
theorem State.notMem_addList {st : State}
    (hold : ∀ t ∈ st.store.triples, ∀ b, t.subject = .blank b → b.id < st.nextBlank)
    (items : List Term) (p o : Term) :
    ⟨.blank ⟨st.nextBlank + items.length, none⟩, p, o⟩ ∉ (st.addList items).1.store.triples := by
  intro ht
  rcases mem_triples_addList ht with ht | ⟨⟨b, hb, hsubject⟩, -⟩
  · exact absurd (hold _ ht _ rfl) (Nat.not_lt.mpr (Nat.le_add_right _ _))
  · obtain rfl := Term.blank.inj hsubject
    exact absurd (mem_cells hb).2 (Nat.lt_irrefl _)

/-- A list of new cells is a chain of its items. -/
theorem State.chain_addList {st : State}
    (hold : ∀ t ∈ st.store.triples, ∀ b, t.subject = .blank b → b.id < st.nextBlank)
    (items : List Term) : (st.addList items).1.store.Chain (listHead (st.cells items))
      ((st.cells items).map .blank) items := by
  induction items with
  | nil => exact .nil
  | cons item items ih =>
    -- nothing leaves the new cell, so both of its triples are the first of their kind
    have hfirst := Store.object?_insert_self
      (Store.object?_eq_none_iff.mpr (notMem_addList hold items (.iri Rdf.first))) item
    have hnone : ((st.addList items).1.store.insert ⟨.blank ⟨st.nextBlank + items.length, none⟩,
        .iri Rdf.first, item⟩).object? (.blank ⟨st.nextBlank + items.length, none⟩) Rdf.rest =
          none := by
      rw [Store.object?_eq_none_iff]
      intro v hv
      rw [Store.triples_insert, Distinct.mem_insertLast] at hv
      rcases hv with hv | hv
      · exact notMem_addList hold _ _ _ hv
      · exact absurd (Triple.mk.inj hv).2.1 (by decide)
    rw [addList_cons]
    exact .cons (fun h => nomatch h) (Store.object?_insert hfirst _)
      (Store.object?_insert_self hnone _) ((ih.insert _).insert _)

/-- A new list leaves the chains of a store as they are. -/
theorem State.chain_of_chain {st : State} {head : Term} {cells items : List Term}
    (h : st.store.Chain head cells items) (added : List Term) :
    (st.addList added).1.store.Chain head cells items := by
  induction added with
  | nil => exact h
  | cons item added ih =>
    rw [addList_cons]
    exact (ih.insert _).insert _

theorem State.nodup_cells (st : State) (items : List Term) :
    ((st.cells items).map Term.blank).Nodup := by
  rw [List.Nodup, List.pairwise_map]
  refine pairwise_cells.imp ?_
  intro b b' hne heq
  exact hne (congrArg BlankNode.id (Term.blank.inj heq))

/-- A collection is read as the head of its cells, and mentioned with them and with its items. -/
theorem readTerm_collection {st st₁ : State} {s : List Char} {items : List Term}
    {q : Shorter (skip s)} (hitems : readItems st (skip s) = ⟨st₁, .ok (items, q)⟩) :
    (∃ hlt, readTerm st ('(' :: s) =
      ⟨(st₁.addList items).1, .ok (listHead (st₁.cells items), ⟨q.1, hlt⟩)⟩) ∧
    .collection items (st₁.cells items) ∈ mentionsTerm st ('(' :: s) := by
  constructor
  · rw [← State.addList_snd]
    exact readTerm_list hitems
  · rw [mentionsTerm, mark?_of_head (by simp),
      show mark? '(' ('(' :: s) = some (.tail '(' s) from rfl]
    dsimp only
    rw [show readItems st (skip (Shorter.tail '(' s).1) = ⟨st₁, .ok (items, q)⟩ from hitems]
    exact List.mem_append_right _ (List.mem_singleton_self _)

namespace Course

variable {first : Nat} {c c' : Course}

/-- Every collection that occurred is a chain of different cells. -/
def ReadBack (c : Course) : Prop :=
  ∀ items cells, .collection items cells ∈ c.mentions →
    c.state.store.Chain (listHead cells) (cells.map .blank) items ∧ (cells.map Term.blank).Nodup

namespace ReadBack

/-- Chains that stay, and new ones. -/
theorem on {st : State} {ms : List Mention} (h : c.ReadBack)
    (hkeep : ∀ head cells items, c.state.store.Chain head cells items →
      st.store.Chain head cells items)
    (hnew : ∀ items cells, .collection items cells ∈ ms →
      st.store.Chain (listHead cells) (cells.map .blank) items ∧
        (cells.map Term.blank).Nodup) : (c.on st ms).ReadBack := by
  intro items cells hmem
  rcases List.mem_append.mp hmem with hmem | hmem
  · obtain ⟨hchain, hnodup⟩ := h items cells hmem
    exact ⟨hkeep _ _ _ hchain, hnodup⟩
  · exact hnew items cells hmem

/-- Every step of a reading leaves the collections as they are, and adds the new one. -/
theorem step (h : c.ReadBack) (haccounted : c.Accounted first) (hstep : c.Step c') :
    c'.ReadBack := by
  cases hstep with
  | reference text => exact h.on (fun _ _ _ hchain => hchain) (by simp)
  | label name =>
    refine h.on (fun _ _ _ hchain => ?_) (by simp)
    rw [State.labelledBlank]
    cases c.state.labels.get? name with
    | some b => exact hchain
    | none => exact hchain
  | bracket => exact h.on (fun _ _ _ hchain => hchain) (by simp)
  | collection hitems =>
    refine h.on (fun _ _ _ hchain => State.chain_of_chain hchain _) ?_
    intro items cells hmem
    obtain ⟨rfl, rfl⟩ := Mention.collection.inj (List.mem_singleton.mp hmem)
    refine ⟨State.chain_addList ?_ items, State.nodup_cells _ _⟩
    -- the subjects of old triples have occurred, and so they are numbered below the new cells
    intro t ht b hb
    obtain ⟨o, ho, rfl⟩ := (haccounted.triples t ht).subject b hb
    exact (haccounted.range o ho).2
  | triple => exact h.on (fun _ _ _ hchain => hchain.insert _) (by simp)
  | declare label space => exact h.on (fun _ _ _ hchain => hchain) (by simp)
  | rebase base => exact h.on (fun _ _ _ hchain => hchain) (by simp)

theorem run (h : c.ReadBack) (haccounted : c.Accounted first) (hrun : c.Leads c') :
    c'.ReadBack := by
  induction hrun with
  | refl => exact h
  | tail hsteps hstep ih => exact ih.step (haccounted.run hsteps) hstep

end ReadBack

end Course

end Turtle

namespace Call

open Turtle

/-- The collections in the text of a call are read back from what the call leaves. -/
theorem listItems_eq (call : Call) {items : List Term} {cells : List BlankNode}
    (h : .collection items cells ∈ (call.source.start call.first).mentions call.source.text) :
    call.store.listItems (listHead cells) = items := by
  have hstart : Course.ReadBack ⟨call.source.start call.first, []⟩ :=
    fun _ _ hmem => nomatch hmem
  have hend := hstart.run (call.source.accounted_start call.first)
    (leads_readDocument _ call.source.text)
  obtain ⟨hchain, hnodup⟩ := hend items cells h
  exact hchain.listItems_eq hnodup

end Call

namespace Turtle

/-- Collections are read back. Whatever a document holds, and from whichever number its blank nodes
are numbered, the list at the head of each of its collections has the items of the collection in
their order. And on every store, however the edges of its lists lead, a list is read along a walk
that looks at no node twice, so that it ends. -/
theorem collections_read_back :
    (∀ (source : Source) (n : Nat) (items : List Term) (cells : List BlankNode),
      .collection items cells ∈ (source.start n).mentions source.text →
        ((source.start n).readDocument source.text).1.store.listItems (listHead cells) = items) ∧
    ∀ (s : Store) (head : Term), ∃ visited,
      s.Walk [] head visited (s.listItems head) ∧ visited.Nodup ∧ visited.length ≤ s.size + 1 :=
  ⟨fun source n _ _ h => Call.listItems_eq ⟨source, n⟩ h,
    fun s head => s.exists_walk_listItems head⟩

/-! A collection of two empty ones and a blank node, which starts a statement. -/

namespace EmptyLists

def source : Source := ⟨none, [], "(()()[])a[]."⟩

/-- The items of the collection: the first two are the same, the third is new. -/
def items (st : State) : List Term := [.iri Rdf.nil, .iri Rdf.nil, st.freshBlank.2]

theorem readTerm_empty (st : State) (s : List Char) :
    ∃ hlt, readTerm st ('(' :: ')' :: s) = ⟨st, .ok (.iri Rdf.nil, ⟨s, hlt⟩)⟩ := by
  have hitems : readItems st (')' :: s) = ⟨st, .ok ([], Shorter.tail ')' s)⟩ := by
    rw [readItems]
    rfl
  exact readTerm_list (s := ')' :: s) hitems

theorem readItems_source (st : State) : ∃ hlt,
    readItems st ['(', ')', '(', ')', '[', ']', ')', 'a', '[', ']', '.'] =
      ⟨st.freshBlank.1, .ok (items st, ⟨['a', '[', ']', '.'], hlt⟩)⟩ := by
  obtain ⟨_, hfirst⟩ := readTerm_empty st ['(', ')', '[', ']', ')', 'a', '[', ']', '.']
  obtain ⟨_, hsecond⟩ := readTerm_empty st ['[', ']', ')', 'a', '[', ']', '.']
  have hthird : readTerm st ['[', ']', ')', 'a', '[', ']', '.'] =
      ⟨st.freshBlank.1, .ok (st.freshBlank.2, ⟨[')', 'a', '[', ']', '.'], by decide⟩)⟩ := by
    rw [readTerm]
    rfl
  have hend : readItems st.freshBlank.1 [')', 'a', '[', ']', '.'] =
      ⟨st.freshBlank.1, .ok ([], ⟨['a', '[', ']', '.'], by decide⟩)⟩ := by
    rw [readItems]
    rfl
  have hlast := readItems_cons (by simp) hthird hend
  exact ⟨by decide, readItems_cons (by simp) hfirst (readItems_cons (by simp) hsecond hlast)⟩

theorem mem_mentions_source (st : State) :
    .collection (items st) (st.freshBlank.1.cells (items st)) ∈ st.mentions source.text := by
  have hskip : skip source.text.toList = source.text.toList := rfl
  obtain ⟨_, hitems⟩ := readItems_source st
  obtain ⟨-, hmem⟩ := readTerm_collection
    (s := ['(', ')', '(', ')', '[', ']', ')', 'a', '[', ']', '.']) hitems
  rw [State.mentions, mentionsEntries_of_skip hskip (by decide), mentionsEntry,
    if_neg (by decide), if_neg (by decide), mentionsStatement]
  exact List.mem_append_left _ (List.mem_append_left _ hmem)

/-- The collection is the subject of the statement. The last of its three cells is made first, after
the node that it holds. -/
theorem collections_read_back_source :
    .collection [.iri Rdf.nil, .iri Rdf.nil, .blank ⟨0, none⟩] [⟨3, none⟩, ⟨2, none⟩, ⟨1, none⟩] ∈
        (source.start 0).mentions source.text ∧
      ((source.start 0).readDocument source.text).1.store.listItems (.blank ⟨3, none⟩) =
        [.iri Rdf.nil, .iri Rdf.nil, .blank ⟨0, none⟩] :=
  have hmem := mem_mentions_source (source.start 0)
  ⟨hmem, collections_read_back.1 source 0 _ _ hmem⟩

end EmptyLists

end Turtle

end GraphConformance
