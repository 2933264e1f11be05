/-!
# Tables in order of insertion

A `Table` maps keys to values and lists its entries in the order in which the keys were first
inserted. Inserting under a present key replaces the value in place; erasing keeps the order of the
others. Keys never repeat: the invariant is a field of the type.

The view is `get?`, described for each operation by `get?_empty`, `get?_insert` and `get?_erase`.
An insertion adds an entry only for a new key (`size_insert`).
-/

set_option autoImplicit false

namespace GraphConformance

variable {κ β : Type} [DecidableEq κ]

/-- A table from keys to values, in order of first insertion. -/
structure Table (κ β : Type) where
  entries : List (κ × β)
  keys_nodup : (entries.map Prod.fst).Nodup
deriving DecidableEq

namespace Table

/-- The value of the first entry for a key. -/
def lookupEntry (k : κ) : List (κ × β) → Option β
  | [] => none
  | (k', v) :: rest => if k' = k then some v else lookupEntry k rest

/-- Replace the value of a key in place, or add an entry at the end. -/
def putEntry (k : κ) (v : β) : List (κ × β) → List (κ × β)
  | [] => [(k, v)]
  | (k', v') :: rest => if k' = k then (k', v) :: rest else (k', v') :: putEntry k v rest

/-- Remove the first entry for a key. -/
def eraseEntry (k : κ) : List (κ × β) → List (κ × β)
  | [] => []
  | (k', v) :: rest => if k' = k then rest else (k', v) :: eraseEntry k rest

theorem mem_keys_putEntry {k x : κ} {v : β} {es : List (κ × β)} :
    x ∈ (putEntry k v es).map Prod.fst ↔ x ∈ es.map Prod.fst ∨ x = k := by
  induction es with
  | nil => simp [putEntry]
  | cons e es ih =>
    obtain ⟨k', v'⟩ := e
    by_cases h : k' = k
    · subst h
      simp only [putEntry, if_pos, List.map_cons, List.mem_cons]
      constructor
      · rintro (h | h)
        · exact Or.inr h
        · exact Or.inl (Or.inr h)
      · rintro ((h | h) | h)
        · exact Or.inl h
        · exact Or.inr h
        · exact Or.inl h
    · simp only [putEntry, if_neg h, List.map_cons, List.mem_cons, ih, or_assoc]

theorem nodup_keys_putEntry {k : κ} {v : β} {es : List (κ × β)}
    (h : (es.map Prod.fst).Nodup) : ((putEntry k v es).map Prod.fst).Nodup := by
  induction es with
  | nil => simp [putEntry]
  | cons e es ih =>
    obtain ⟨k', v'⟩ := e
    simp only [List.map_cons, List.nodup_cons] at h
    by_cases hk : k' = k
    · subst hk
      simp only [putEntry, if_pos, List.map_cons, List.nodup_cons]
      exact h
    · simp only [putEntry, if_neg hk, List.map_cons, List.nodup_cons]
      refine ⟨?_, ih h.2⟩
      rw [mem_keys_putEntry]
      rintro (hm | hm)
      · exact h.1 hm
      · exact hk hm

theorem eraseEntry_sublist (k : κ) (es : List (κ × β)) : (eraseEntry k es).Sublist es := by
  induction es with
  | nil => exact List.Sublist.refl _
  | cons e es ih =>
    obtain ⟨k', v'⟩ := e
    simp only [eraseEntry]
    split
    · exact List.sublist_cons_self _ _
    · exact ih.cons_cons _

/-- The table without entries. -/
def empty : Table κ β := ⟨[], by simp⟩

instance : EmptyCollection (Table κ β) := ⟨empty⟩

instance : Inhabited (Table κ β) := ⟨empty⟩

/-- The value of a key. -/
def get? (t : Table κ β) (k : κ) : Option β := lookupEntry k t.entries

/-- Whether the table has an entry for a key. -/
def contains (t : Table κ β) (k : κ) : Bool := (t.get? k).isSome

/-- The keys in order of first insertion. -/
def keys (t : Table κ β) : List κ := t.entries.map Prod.fst

/-- The number of entries. -/
def size (t : Table κ β) : Nat := t.entries.length

/-- Set the value of a key. -/
def insert (t : Table κ β) (k : κ) (v : β) : Table κ β :=
  ⟨putEntry k v t.entries, nodup_keys_putEntry t.keys_nodup⟩

/-- Remove the entry of a key. -/
def erase (t : Table κ β) (k : κ) : Table κ β :=
  ⟨eraseEntry k t.entries, ((eraseEntry_sublist k t.entries).map Prod.fst).nodup t.keys_nodup⟩

theorem lookupEntry_putEntry (k x : κ) (v : β) (es : List (κ × β)) :
    lookupEntry x (putEntry k v es) = if x = k then some v else lookupEntry x es := by
  induction es with
  | nil =>
    by_cases h : x = k
    · simp [putEntry, lookupEntry, h]
    · simp [putEntry, lookupEntry, h, Ne.symm h]
  | cons e es ih =>
    obtain ⟨k', v'⟩ := e
    by_cases hk : k' = k
    · subst hk
      by_cases hx : x = k'
      · simp [putEntry, lookupEntry, hx]
      · simp [putEntry, lookupEntry, hx, Ne.symm hx]
    · by_cases hx : k' = x
      · subst hx
        simp [putEntry, lookupEntry, hk]
      · simp [putEntry, lookupEntry, hk, hx, ih]

theorem lookupEntry_eq_none {k : κ} {es : List (κ × β)} (h : k ∉ es.map Prod.fst) :
    lookupEntry k es = none := by
  induction es with
  | nil => rfl
  | cons e es ih =>
    obtain ⟨k', v'⟩ := e
    simp only [List.map_cons, List.mem_cons, not_or] at h
    simp [lookupEntry, Ne.symm h.1, ih h.2]

theorem lookupEntry_eraseEntry {k x : κ} {es : List (κ × β)} (h : (es.map Prod.fst).Nodup) :
    lookupEntry x (eraseEntry k es) = if x = k then none else lookupEntry x es := by
  induction es with
  | nil => simp [eraseEntry, lookupEntry]
  | cons e es ih =>
    obtain ⟨k', v'⟩ := e
    simp only [List.map_cons, List.nodup_cons] at h
    by_cases hk : k' = k
    · subst hk
      by_cases hx : x = k'
      · subst hx
        simp [eraseEntry, lookupEntry_eq_none h.1]
      · simp [eraseEntry, lookupEntry, hx, Ne.symm hx]
    · by_cases hx : k' = x
      · subst hx
        simp [eraseEntry, lookupEntry, hk]
      · simp [eraseEntry, lookupEntry, hk, hx, ih h.2]

theorem length_putEntry (k : κ) (v : β) (es : List (κ × β)) :
    (putEntry k v es).length = if lookupEntry k es = none then es.length + 1 else es.length := by
  induction es with
  | nil => rfl
  | cons e es ih =>
    obtain ⟨k', v'⟩ := e
    by_cases hk : k' = k
    · simp [putEntry, lookupEntry, hk]
    · simp only [putEntry, lookupEntry, if_neg hk, List.length_cons, ih]
      split <;> rfl

@[simp]
theorem get?_empty (k : κ) : (empty : Table κ β).get? k = none := rfl

theorem get?_insert (t : Table κ β) (k x : κ) (v : β) :
    (t.insert k v).get? x = if x = k then some v else t.get? x :=
  lookupEntry_putEntry k x v t.entries

/-- A new key adds an entry, and a key that is there adds none. -/
theorem size_insert (t : Table κ β) (k : κ) (v : β) :
    (t.insert k v).size = if t.get? k = none then t.size + 1 else t.size :=
  length_putEntry k v t.entries

theorem get?_insert_eq_some_iff {t : Table κ β} {k x : κ} {v w : β} :
    (t.insert k v).get? x = some w ↔ x = k ∧ v = w ∨ x ≠ k ∧ t.get? x = some w := by
  rw [get?_insert]
  by_cases h : x = k
  · simp [h]
  · simp [h]

theorem get?_erase (t : Table κ β) (k x : κ) :
    (t.erase k).get? x = if x = k then none else t.get? x :=
  lookupEntry_eraseEntry t.keys_nodup

end Table

end GraphConformance
