import GraphConformance.Mapping.Basic

/-!
# Entries and pairs

The entries of a table are the values of its keys, and the pairs of a mapping are its individuals
that have a partner.
-/

set_option autoImplicit false

namespace GraphConformance

namespace Table

variable {κ β : Type} [DecidableEq κ]

theorem lookupEntry_eq_some_iff {k : κ} {v : β} {es : List (κ × β)}
    (h : (es.map Prod.fst).Nodup) : lookupEntry k es = some v ↔ (k, v) ∈ es := by
  induction es with
  | nil => simp [lookupEntry]
  | cons e es ih =>
    obtain ⟨k', v'⟩ := e
    rw [List.map_cons, List.nodup_cons] at h
    rw [lookupEntry, List.mem_cons, Prod.mk.injEq]
    by_cases hk : k' = k
    · subst hk
      rw [if_pos rfl, Option.some.injEq]
      constructor
      · exact fun hv => Or.inl ⟨rfl, hv.symm⟩
      · rintro (⟨-, hv⟩ | hm)
        · exact hv.symm
        · exact absurd (List.mem_map.mpr ⟨_, hm, rfl⟩) h.1
    · rw [if_neg hk, ih h.2]
      constructor
      · exact Or.inr
      · rintro (⟨hk', -⟩ | hm)
        · exact absurd hk'.symm hk
        · exact hm

/-- A new key comes last. -/
theorem putEntry_of_lookupEntry_eq_none {k : κ} {es : List (κ × β)} (h : lookupEntry k es = none)
    (v : β) : putEntry k v es = es ++ [(k, v)] := by
  induction es with
  | nil => rfl
  | cons e es ih =>
    obtain ⟨k', v'⟩ := e
    rw [lookupEntry] at h
    split at h
    · exact absurd h (by simp)
    · rename_i hk
      rw [putEntry, if_neg hk, ih h, List.cons_append]

theorem keys_insert_of_get?_eq_none {t : Table κ β} {k : κ} (h : t.get? k = none) (v : β) :
    (t.insert k v).keys = t.keys ++ [k] := by
  show (putEntry k v t.entries).map Prod.fst = t.entries.map Prod.fst ++ [k]
  rw [putEntry_of_lookupEntry_eq_none h, List.map_append, List.map_singleton]

theorem get?_eq_none_of_not_mem_keys {t : Table κ β} {k : κ} (h : k ∉ t.keys) : t.get? k = none :=
  lookupEntry_eq_none h

theorem mem_entries_iff {t : Table κ β} {k : κ} {v : β} : (k, v) ∈ t.entries ↔ t.get? k = some v :=
  (lookupEntry_eq_some_iff t.keys_nodup).symm

theorem entries_ne_nil {t : Table κ β} {k : κ} {v : β} (h : t.get? k = some v) :
    t.entries ≠ [] := by
  rw [← mem_entries_iff] at h
  exact List.ne_nil_of_mem h

end Table

namespace Mapping

variable {m : Mapping} {i t : Term}

theorem mem_pairs_iff : (i, t) ∈ m.pairs ↔ m.template? i = some t := by
  rw [pairs, List.mem_filterMap, template?]
  constructor
  · rintro ⟨⟨j, p⟩, hmem, hp⟩
    obtain ⟨s, hs, heq⟩ := Option.map_eq_some_iff.mp hp
    obtain ⟨rfl, rfl⟩ := Prod.mk.inj heq
    rw [Table.mem_entries_iff.mp hmem, Option.bind_some, hs]
  · intro h
    obtain ⟨p, hp, ht⟩ := Option.bind_eq_some_iff.mp h
    exact ⟨(i, p), Table.mem_entries_iff.mpr hp, Option.map_eq_some_iff.mpr ⟨t, ht, rfl⟩⟩

/-- Leaving out entries, and keeping the keys of the others, gives some of the keys in order. -/
theorem sublist_fst_filterMap {α β γ : Type} {f : α × β → Option (α × γ)}
    (h : ∀ e x, f e = some x → x.1 = e.1) (es : List (α × β)) :
    ((es.filterMap f).map Prod.fst).Sublist (es.map Prod.fst) := by
  induction es with
  | nil => exact List.Sublist.refl _
  | cons e es ih =>
    cases hx : f e with
    | none =>
      rw [List.filterMap_cons_none hx, List.map_cons]
      exact ih.cons _
    | some x =>
      rw [List.filterMap_cons_some hx, List.map_cons, List.map_cons, h e x hx]
      exact ih.cons_cons _

/-- An individual is in one pair at most. -/
theorem nodup_pairs (m : Mapping) : (m.pairs.map Prod.fst).Nodup := by
  refine (sublist_fst_filterMap ?_ m.entries).nodup m.keys_nodup
  rintro ⟨i, p⟩ x hx
  obtain ⟨t, -, rfl⟩ := Option.map_eq_some_iff.mp hx
  rfl

theorem template?_of_required (h : m.get? i = some (.required t)) : m.template? i = some t := by
  rw [template?, h]
  rfl

theorem isRequired_of_required (h : m.get? i = some (.required t)) : m.isRequired i = true := by
  rw [isRequired, h]
  rfl

end Mapping

end GraphConformance
