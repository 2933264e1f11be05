/-!
# Lists without repetition

Sets whose order is observable are lists without repetition. `insertLast` adds an element at the
end unless it is there already, `union` adds a whole list that way, and `dedup` keeps the first
occurrence of each element. Membership is that of sets (`mem_insertLast`, `mem_union`, `mem_dedup`)
and no operation introduces a repetition (`nodup_insertLast`, `nodup_union`, `nodup_dedup`). What is
added comes after what was there (`prefix_insertLast`, `prefix_union`), and where nothing repeats a
union is the one list followed by the other (`union_eq_append`) and `dedup` changes nothing
(`dedup_eq_self`).
-/

set_option autoImplicit false

namespace GraphConformance.Distinct

variable {α : Type} [DecidableEq α]

/-- The list with `a` at its end, or unchanged when it holds `a`. -/
def insertLast (xs : List α) (a : α) : List α :=
  if a ∈ xs then xs else xs ++ [a]

/-- The list followed by those elements of `ys` that are new. -/
def union (xs ys : List α) : List α :=
  ys.foldl insertLast xs

/-- First occurrences only, in order. -/
def dedup (ys : List α) : List α := union [] ys

@[simp]
theorem mem_insertLast {xs : List α} {a b : α} : b ∈ insertLast xs a ↔ b ∈ xs ∨ b = a := by
  unfold insertLast
  split
  · constructor
    · exact Or.inl
    · rintro (h | rfl) <;> assumption
  · simp

theorem nodup_insertLast {xs : List α} (h : xs.Nodup) (a : α) : (insertLast xs a).Nodup := by
  unfold insertLast
  split
  · exact h
  · rename_i ha
    rw [List.nodup_append]
    refine ⟨h, by simp, ?_⟩
    intro b hb c hc hbc
    simp only [List.mem_singleton] at hc
    exact ha (hc ▸ hbc ▸ hb)

@[simp]
theorem union_nil (xs : List α) : union xs [] = xs := rfl

@[simp]
theorem union_cons (xs : List α) (a : α) (ys : List α) :
    union xs (a :: ys) = union (insertLast xs a) ys := rfl

@[simp]
theorem mem_union {xs ys : List α} {b : α} : b ∈ union xs ys ↔ b ∈ xs ∨ b ∈ ys := by
  induction ys generalizing xs with
  | nil => simp
  | cons a ys ih => simp [ih, or_assoc]

theorem nodup_union {xs : List α} (h : xs.Nodup) (ys : List α) : (union xs ys).Nodup := by
  induction ys generalizing xs with
  | nil => exact h
  | cons a ys ih => exact ih (nodup_insertLast h a)

theorem prefix_insertLast (xs : List α) (a : α) : xs <+: insertLast xs a := by
  unfold insertLast
  split
  · exact List.prefix_refl xs
  · exact List.prefix_append xs [a]

theorem prefix_union (xs ys : List α) : xs <+: union xs ys := by
  induction ys generalizing xs with
  | nil => exact List.prefix_refl xs
  | cons a ys ih => exact (prefix_insertLast xs a).trans (ih (insertLast xs a))

theorem union_eq_append {xs ys : List α} (h : (xs ++ ys).Nodup) : union xs ys = xs ++ ys := by
  induction ys generalizing xs with
  | nil => simp
  | cons a ys ih =>
    have hnew : a ∉ xs := fun ha =>
      (List.nodup_append.mp h).2.2 a ha a (List.mem_cons_self ..) rfl
    have happend : (xs ++ [a]) ++ ys = xs ++ a :: ys := by simp
    rw [union_cons, insertLast, if_neg hnew, ih (happend ▸ h), happend]

theorem dedup_eq_self {ys : List α} (h : ys.Nodup) : dedup ys = ys :=
  union_eq_append (by rwa [List.nil_append])

theorem union_cons_left {xs ys : List α} {a : α} (h : a ∉ ys) :
    union (a :: xs) ys = a :: union xs ys := by
  induction ys generalizing xs with
  | nil => rfl
  | cons b ys ih =>
    obtain ⟨hb, hys⟩ := not_or.mp (mt List.mem_cons.mpr h)
    have hinsert : insertLast (a :: xs) b = a :: insertLast xs b := by
      by_cases hmem : b ∈ xs
      · simp [insertLast, hmem]
      · simp [insertLast, hmem, Ne.symm hb]
    rw [union_cons, union_cons, hinsert, ih hys]

/-- An element that does not occur again stays first. -/
theorem dedup_cons {ys : List α} {a : α} (h : a ∉ ys) : dedup (a :: ys) = a :: dedup ys :=
  union_cons_left h

@[simp]
theorem mem_dedup {ys : List α} {b : α} : b ∈ dedup ys ↔ b ∈ ys := by
  simp [dedup]

theorem nodup_dedup (ys : List α) : (dedup ys).Nodup :=
  nodup_union List.nodup_nil ys

end GraphConformance.Distinct
