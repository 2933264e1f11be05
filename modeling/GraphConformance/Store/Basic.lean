import GraphConformance.Distinct
import GraphConformance.Table
import GraphConformance.Term

/-!
# Stores

A `Store` is a set of triples in order of insertion, with an index from each subject to its edges.
The type carries what ties the two together: no triple repeats (`nodup`), and the index holds for
each subject exactly its edges in order of insertion, with no entry for a subject without triples
(`index_get?`). Every query through the index is therefore a scan of the list
(`outgoing_eq_edgesFrom`).

`add` and `remove` answer whether the store changed; `insert` and `erase` are their stores alone.
-/

set_option autoImplicit false

namespace GraphConformance

open Vocabulary

/-- What a triple says of its subject. -/
abbrev Edge := Term × Term

/-- The predicate and object of a triple. -/
def Triple.edge (t : Triple) : Edge := (t.predicate, t.object)

/-- The edges that leave a subject, in order. -/
def edgesFrom (triples : List Triple) (subject : Term) : List Edge :=
  (triples.filter (·.subject = subject)).map Triple.edge

/-- The index entry of a subject with the given edges: none without edges. -/
def indexEntry : List Edge → Option (List Edge)
  | [] => none
  | e :: es => some (e :: es)

/-- A set of triples in order of insertion, indexed by subject. -/
structure Store where
  triples : List Triple
  index : Table Term (List Edge)
  nodup : triples.Nodup
  index_get? : ∀ s, index.get? s = indexEntry (edgesFrom triples s)

theorem indexEntry_getD (es : List Edge) : (indexEntry es).getD [] = es := by
  cases es <;> rfl

theorem edgesFrom_append (ts : List Triple) (t : Triple) (s : Term) :
    edgesFrom (ts ++ [t]) s
      = if s = t.subject then edgesFrom ts s ++ [t.edge] else edgesFrom ts s := by
  by_cases h : s = t.subject
  · subst h
    simp [edgesFrom, List.filter_append]
  · simp [edgesFrom, List.filter_append, h, Ne.symm h]

theorem mem_edgesFrom {ts : List Triple} {s : Term} {e : Edge} :
    e ∈ edgesFrom ts s ↔ ⟨s, e.1, e.2⟩ ∈ ts := by
  simp only [edgesFrom, List.mem_map, List.mem_filter, decide_eq_true_eq]
  constructor
  · rintro ⟨t, ⟨ht, rfl⟩, rfl⟩
    exact ht
  · intro h
    exact ⟨_, ⟨h, rfl⟩, rfl⟩

theorem edgesFrom_erase (ts : List Triple) (t : Triple) (s : Term) :
    edgesFrom (ts.erase t) s
      = if s = t.subject then (edgesFrom ts s).erase t.edge else edgesFrom ts s := by
  induction ts with
  | nil => simp [edgesFrom]
  | cons u ts ih =>
    by_cases hu : u = t
    · subst hu
      rw [List.erase_cons_head]
      by_cases hs : s = u.subject
      · subst hs
        simp [edgesFrom]
      · simp [edgesFrom, hs, Ne.symm hs]
    · rw [List.erase_cons_tail (by simpa using hu)]
      by_cases hus : u.subject = s
      · have hcons : ∀ l, edgesFrom (u :: l) s = u.edge :: edgesFrom l s := by
          intro l; simp [edgesFrom, hus]
        rw [hcons, hcons, ih]
        by_cases hs : s = t.subject
        · have hne : u.edge ≠ t.edge := by
            intro he
            apply hu
            obtain ⟨s₁, p₁, o₁⟩ := u
            obtain ⟨s₂, p₂, o₂⟩ := t
            simp only [Triple.edge, Prod.mk.injEq] at he hus hs
            simp [hus, hs, he.1, he.2]
          rw [if_pos hs, if_pos hs, List.erase_cons_tail (by simpa using hne)]
        · rw [if_neg hs, if_neg hs]
      · have hskip : ∀ l, edgesFrom (u :: l) s = edgesFrom l s := by
          intro l; simp [edgesFrom, hus]
        rw [hskip, hskip, ih]

namespace Store

/-- The store without triples. -/
def empty : Store := ⟨[], Table.empty, by simp, fun _ => rfl⟩

instance : EmptyCollection Store := ⟨empty⟩

instance : Inhabited Store := ⟨empty⟩

/-- The number of triples. -/
def size (s : Store) : Nat := s.triples.length

/-- Whether the store holds no triple. -/
def isEmpty (s : Store) : Bool := s.triples.isEmpty

/-- Whether the store holds a triple. -/
def contains (s : Store) (t : Triple) : Bool := decide (t ∈ s.triples)

/-- The edges that leave a subject, in order of insertion. -/
def outgoing (s : Store) (subject : Term) : List Edge := (s.index.get? subject).getD []

/-- The index with one more edge for a subject. -/
def indexInsert (index : Table Term (List Edge)) (t : Triple) : Table Term (List Edge) :=
  index.insert t.subject ((index.get? t.subject).getD [] ++ [t.edge])

/-- The index with one edge less for a subject, and no entry when that was its last one. -/
def indexErase (index : Table Term (List Edge)) (t : Triple) : Table Term (List Edge) :=
  match ((index.get? t.subject).getD []).erase t.edge with
  | [] => index.erase t.subject
  | e :: es => index.insert t.subject (e :: es)

/-- Add a triple; answers whether it was new. -/
def add (s : Store) (t : Triple) : Bool × Store :=
  if h : t ∈ s.triples then (false, s)
  else
    (true,
      { triples := s.triples ++ [t]
        index := indexInsert s.index t
        nodup := by
          rw [List.nodup_append]
          refine ⟨s.nodup, by simp, ?_⟩
          intro a ha b hb hab
          simp only [List.mem_singleton] at hb
          exact h (hb ▸ hab ▸ ha)
        index_get? := by
          intro x
          rw [indexInsert, Table.get?_insert, edgesFrom_append]
          by_cases hx : x = t.subject
          · subst hx
            rw [if_pos rfl, if_pos rfl, s.index_get?, indexEntry_getD]
            cases edgesFrom s.triples t.subject <;> rfl
          · rw [if_neg hx, if_neg hx, s.index_get?] })

/-- Remove a triple; answers whether it was there. -/
def remove (s : Store) (t : Triple) : Bool × Store :=
  if t ∈ s.triples then
    (true,
      { triples := s.triples.erase t
        index := indexErase s.index t
        nodup := s.nodup.erase t
        index_get? := by
          intro x
          rw [edgesFrom_erase, indexErase, s.index_get?, indexEntry_getD]
          by_cases hx : x = t.subject
          · subst hx
            rw [if_pos rfl]
            split
            · rename_i he
              rw [Table.get?_erase, if_pos rfl, he]
              rfl
            · rename_i e es he
              rw [Table.get?_insert, if_pos rfl, he]
              rfl
          · rw [if_neg hx]
            split
            · rw [Table.get?_erase, if_neg hx, s.index_get?]
            · rw [Table.get?_insert, if_neg hx, s.index_get?] })
  else (false, s)

/-- The store with a triple. -/
def insert (s : Store) (t : Triple) : Store := (s.add t).2

/-- The store without a triple. -/
def erase (s : Store) (t : Triple) : Store := (s.remove t).2

/-- The store with all triples of a list. -/
def insertAll (s : Store) (ts : List Triple) : Store := ts.foldl insert s

/-- The store of the triples of a list. -/
def ofList (ts : List Triple) : Store := empty.insertAll ts

/-- The store with all triples of another one. -/
def merge (s other : Store) : Store := s.insertAll other.triples

/-- The objects of a subject under a predicate. -/
def objects (s : Store) (subject : Term) (predicate : Iri) : List Term :=
  ((s.outgoing subject).filter (·.1 = .iri predicate)).map Prod.snd

/-- The first object of a subject under a predicate. -/
def object? (s : Store) (subject : Term) (predicate : Iri) : Option Term :=
  ((s.outgoing subject).find? (·.1 = .iri predicate)).map Prod.snd

/-- The subjects of an object under a predicate. -/
def subjects (s : Store) (predicate : Iri) (object : Term) : List Term :=
  (s.triples.filter fun t => t.predicate = .iri predicate && t.object = object).map Triple.subject

/-- The asserted types of a subject. -/
def types (s : Store) (subject : Term) : List Term := s.objects subject Rdf.type

/-- Whether a term occurs in some triple. -/
def mentions (s : Store) (x : Term) : Bool :=
  s.index.contains x || s.triples.any fun t => t.object = x || t.predicate = x

/-- All terms that occur, subjects first. -/
def terms (s : Store) : List Term :=
  Distinct.dedup
    (s.triples.map Triple.subject ++ s.triples.map Triple.predicate ++ s.triples.map Triple.object)

/-- The triples in their written form, one on a line. -/
def nTriplesChars (s : Store) : List Char :=
  s.triples.flatMap fun t => t.chars ++ ['\n']

/-- The triples in their written form, one on a line, as a text. -/
def nTriples (s : Store) : String := String.ofList s.nTriplesChars

/-- The store as a block for a reader: its triples on indented lines between braces. -/
def outline (s : Store) : String :=
  String.ofList ("Store \x7b\n".toList ++
    (s.triples.flatMap fun t => ' ' :: ' ' :: t.chars ++ ['\n']) ++ ['\x7d'])

theorem outgoing_eq_edgesFrom (s : Store) (x : Term) : s.outgoing x = edgesFrom s.triples x := by
  rw [outgoing, s.index_get?, indexEntry_getD]

@[simp]
theorem triples_empty : empty.triples = [] := rfl

theorem triples_insert (s : Store) (t : Triple) :
    (s.insert t).triples = Distinct.insertLast s.triples t := by
  unfold insert add Distinct.insertLast
  split <;> rfl

theorem triples_erase (s : Store) (t : Triple) : (s.erase t).triples = s.triples.erase t := by
  unfold erase remove
  split
  · rfl
  · rename_i h
    exact (List.erase_of_not_mem h).symm

theorem triples_insertAll (s : Store) (ts : List Triple) :
    (s.insertAll ts).triples = Distinct.union s.triples ts := by
  unfold insertAll Distinct.union
  induction ts generalizing s with
  | nil => rfl
  | cons t ts ih => rw [List.foldl_cons, ih, List.foldl_cons, triples_insert]

theorem triples_merge (s other : Store) :
    (s.merge other).triples = Distinct.union s.triples other.triples :=
  triples_insertAll s other.triples

end Store

end GraphConformance
