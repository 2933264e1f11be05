/-!
# Cutting a text

Where a text is cut: before the first occurrence of a pattern (`breakBefore`) or after the last
occurrence of a character (`splitAfterLast`). In both cases the two parts make up the text again
(`append_of_breakBefore`, `append_of_splitAfterLast`).
-/

set_option autoImplicit false

namespace GraphConformance.Text

/-- The text before the first occurrence of `pattern`, and the text from there on. -/
def breakBefore (pattern : List Char) : List Char → Option (List Char × List Char)
  | [] => if pattern.isEmpty then some ([], []) else none
  | c :: rest =>
    if pattern.isPrefixOf (c :: rest) then some ([], c :: rest)
    else (breakBefore pattern rest).map fun (before, after) => (c :: before, after)

/-- The text up to and including the last `mark`, and the text after it. -/
def splitAfterLast (mark : Char) : List Char → Option (List Char × List Char)
  | [] => none
  | c :: rest =>
    match splitAfterLast mark rest with
    | some (before, after) => some (c :: before, after)
    | none => if c = mark then some ([c], rest) else none

/-- The number of bytes of a text in UTF-8. -/
def utf8Length (text : List Char) : Nat := text.foldr (fun c n => c.utf8Size + n) 0

theorem utf8Length_append (s t : List Char) :
    utf8Length (s ++ t) = utf8Length s + utf8Length t := by
  induction s with
  | nil => simp [utf8Length]
  | cons c rest ih =>
    simp only [utf8Length, List.cons_append, List.foldr_cons] at ih ⊢
    rw [ih, Nat.add_assoc]

theorem append_of_breakBefore {pattern text before after : List Char}
    (h : breakBefore pattern text = some (before, after)) : before ++ after = text := by
  induction text generalizing before after with
  | nil =>
    simp only [breakBefore] at h
    split at h <;> simp_all
  | cons c rest ih =>
    simp only [breakBefore] at h
    split at h
    · simp only [Option.some.injEq, Prod.mk.injEq] at h
      simp [← h.1, ← h.2]
    · simp only [Option.map_eq_some_iff, Prod.mk.injEq, Prod.exists] at h
      obtain ⟨b, a, hr, rfl, rfl⟩ := h
      simp [ih hr]

theorem isPrefixOf_of_breakBefore {pattern text before after : List Char}
    (h : breakBefore pattern text = some (before, after)) : pattern.isPrefixOf after = true := by
  induction text generalizing before after with
  | nil =>
    simp only [breakBefore] at h
    split at h <;> simp_all
  | cons c rest ih =>
    simp only [breakBefore] at h
    split at h
    · rename_i hp
      simp only [Option.some.injEq, Prod.mk.injEq] at h
      rw [← h.2]; exact hp
    · simp only [Option.map_eq_some_iff, Prod.mk.injEq, Prod.exists] at h
      obtain ⟨b, a, hr, rfl, rfl⟩ := h
      exact ih hr

theorem append_of_splitAfterLast {mark : Char} {text before after : List Char}
    (h : splitAfterLast mark text = some (before, after)) : before ++ after = text := by
  induction text generalizing before after with
  | nil => simp [splitAfterLast] at h
  | cons c rest ih =>
    simp only [splitAfterLast] at h
    split at h
    · rename_i b a hr
      simp only [Option.some.injEq, Prod.mk.injEq] at h
      rw [← h.1, ← h.2, List.cons_append, ih hr]
    · split at h
      · simp only [Option.some.injEq, Prod.mk.injEq] at h
        rw [← h.1, ← h.2]; rfl
      · simp at h

end GraphConformance.Text
