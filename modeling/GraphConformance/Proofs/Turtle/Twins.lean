import GraphConformance.Proofs.Turtle.Rests
import Mathlib.Tactic.IntervalCases

/-!
# Texts that are read alike

Two texts are read alike as long as the readers of characters see no difference between them
(`Twin`). The second text may differ from the first in two ways. Behind the first text a line end
and more text may follow: no class of characters holds the line end, and no mark or word has one.
And the last characters of the first text, `bound` of them, may stand in other letter case: no class
or mark tells letter cases apart, and the words that do have no letter that could be the first of
these. What is read before them has the same value in both texts (`Answers`).
-/

set_option autoImplicit false

namespace GraphConformance.Text

/-! ## Letter case -/

/-- The letters that `Char.toLower` changes. -/
def capitals : List Char := "ABCDEFGHIJKLMNOPQRSTUVWXYZ".toList

theorem mem_capitals_or (c : Char) : c ∈ capitals ∨ c.toLower = c := by
  by_cases h : 'A'.val ≤ c.val ∧ c.val ≤ 'Z'.val
  -- one of 26 code points
  · have hlower : 65 ≤ c.toNat := h.1
    have hupper : c.toNat ≤ 90 := h.2
    refine Or.inl ?_
    rw [← Char.ofNat_toNat c]
    generalize c.toNat = n at hlower hupper
    interval_cases n <;> decide
  · exact Or.inr (dif_neg h)

/-- A class does not tell letter cases apart and does not hold the line end. -/
structure IsClass (p : Char → Bool) : Prop where
  toLower : ∀ c, p c.toLower = p c
  line : p '\n' = false

theorem eq_of_capitals {p : Char → Bool} (h : capitals.all (fun c => p c.toLower = p c) = true)
    (c : Char) : p c.toLower = p c := by
  rcases mem_capitals_or c with hc | hc
  · exact List.all_iff_forall_prop.mp h c hc
  · rw [hc]

theorem isClass_of_capitals {p : Char → Bool}
    (h : capitals.all (fun c => p c.toLower = p c) = true) (hline : p '\n' = false) : IsClass p :=
  ⟨eq_of_capitals h, hline⟩

theorem IsClass.eq_of_toLower {p : Char → Bool} (hp : IsClass p) {c d : Char}
    (h : d.toLower = c.toLower) : p d = p c := by
  rw [← hp.toLower d, h, hp.toLower]

/-- A mark is no letter and not the line end. -/
def IsMark (m : Char) : Prop := m.isAlpha = false ∧ m ≠ '\n'

instance (m : Char) : Decidable (IsMark m) := inferInstanceAs (Decidable (_ ∧ _))

theorem eq_iff_of_toLower {c d m : Char} (hm : m.isAlpha = false) (h : d.toLower = c.toLower) :
    d = m ↔ c = m := by
  have hsame : ∀ x : Char, x.toLower = m ↔ x = m := by
    intro x
    rcases mem_capitals_or x with hx | hx
    · have hletters : ∀ y ∈ capitals, y.isAlpha = true ∧ y.toLower.isAlpha = true :=
        List.all_iff_forall_prop.mp (by decide)
      obtain ⟨halpha, hlower⟩ := hletters x hx
      constructor
      · rintro rfl
        exact absurd hlower (by simp [hm])
      · rintro rfl
        exact absurd halpha (by simp [hm])
    · rw [hx]
  rw [← hsame d, h, hsame]

variable {α β : Type} {s u : List Char}

/-! ## Answers -/

theorem Shorter.ne_nil (r : Shorter s) : s ≠ [] := by
  rintro rfl
  exact Nat.not_lt_zero _ r.2

theorem exists_of_rel {P : α → β → Prop} {x : Option α} {y : Option β} (h : Option.Rel P x y)
    {v : α} (hx : x = some v) : ∃ w, y = some w ∧ P v w := by
  cases h with
  | none => cases hx
  | some hvw =>
    obtain rfl := Option.some.inj hx
    exact ⟨_, rfl, hvw⟩

theorem eq_none_of_rel {P : α → β → Prop} {x : Option α} {y : Option β} (h : Option.Rel P x y)
    (hx : x = none) : y = none := by
  cases h with
  | none => rfl
  | some hvw => cases hx

theorem rel_map {α' β' : Type} {P : α → β → Prop} {P' : α' → β' → Prop} {f : α → α'} {g : β → β'}
    {x : Option α} {y : Option β} (h : Option.Rel P x y) (hfg : ∀ v w, P v w → P' (f v) (g w)) :
    Option.Rel P' (x.map f) (y.map g) := by
  cases h with
  | none => exact .none
  | some hvw => exact .some (hfg _ _ hvw)

theorem rel_or {P : α → β → Prop} {x x' : Option α} {y y' : Option β} (h : Option.Rel P x y)
    (h' : Option.Rel P x' y') : Option.Rel P (x.or x') (y.or y') := by
  cases h with
  | none => exact h'
  | some hvw => exact .some hvw

/-- A relation between texts and others that are read alike. -/
structure Twin (bound : Nat) (R : List Char → List Char → Prop) : Prop where
  nil : ∀ {u}, R [] u → ∀ c ∈ u.head?, c = '\n'
  cons : ∀ {c s u}, R (c :: s) u →
    ∃ d v, u = d :: v ∧ R s v ∧ d.toLower = c.toLower ∧ (bound ≤ s.length → d = c)
  /-- The letter that stands first among those that may differ. -/
  first : ∀ {c s u}, R (c :: s) u → s.length + 1 = bound → c.toLower = 'p' ∨ c.toLower = 'b'

/-- The rests are read alike. -/
def Rests (R : List Char → List Char → Prop) (r : Shorter s) (r' : Shorter u) : Prop := R r.1 r'.1

/-- The rests are read alike, and what was read is the same if it stood before what may differ. -/
def Answers (bound : Nat) (R : List Char → List Char → Prop) (x : α × Shorter s)
    (y : α × Shorter u) : Prop :=
  R x.2.1 y.2.1 ∧ (bound ≤ x.2.1.length → y.1 = x.1)

section Twins

variable {bound : Nat} {R : List Char → List Char → Prop} (hR : Twin bound R)

include hR

theorem Twin.head?_ne (h : R [] u) {m : Char} (hm : m ≠ '\n') : u.head? ≠ some m := by
  intro hhead
  exact hm (hR.nil h m hhead)

theorem Twin.head?_iff {m : Char} (hm : IsMark m) (h : R s u) :
    u.head? = some m ↔ s.head? = some m := by
  cases s with
  | nil => simp [hR.head?_ne h hm.2]
  | cons c s =>
    obtain ⟨d, v, rfl, -, hcase, -⟩ := hR.cons h
    simpa using eq_iff_of_toLower hm.1 hcase

/-! ## Marks, words and runs -/

theorem mark?_twin {m : Char} (hm : IsMark m) (h : R s u) :
    Option.Rel (Rests R) (mark? m s) (mark? m u) := by
  cases s with
  | nil =>
    rw [mark?_of_head (hR.head?_ne h hm.2)]
    exact .none
  | cons c s =>
    obtain ⟨d, v, rfl, hv, hcase, -⟩ := hR.cons h
    by_cases hc : c = m
    · simp only [mark?, if_pos hc, if_pos ((eq_iff_of_toLower hm.1 hcase).mpr hc)]
      exact .some hv
    · simp only [mark?, if_neg hc, if_neg (mt (eq_iff_of_toLower hm.1 hcase).mp hc)]
      exact .none

theorem word?_twin {w : List Char} (hw : ∀ m ∈ w, IsMark m) (h : R s u) :
    Option.Rel (Rests R) (word? w s) (word? w u) := by
  induction w, s using word?.induct generalizing u with
  | case1 s => exact .none
  | case2 c word =>
    rw [word?_of_head (hR.head?_ne h (hw c List.mem_cons_self).2)]
    exact .none
  | case3 c rest =>
    obtain ⟨d, v, rfl, hv, hcase, -⟩ := hR.cons h
    have hd := (eq_iff_of_toLower (hw c List.mem_cons_self).1 hcase).mpr rfl
    simp only [word?, if_pos hd, if_true]
    exact .some hv
  | case4 w c rest hne =>
    obtain ⟨d, v, rfl, -, hcase, -⟩ := hR.cons h
    have hd := mt (eq_iff_of_toLower (hw w List.mem_cons_self).1 hcase).mp hne
    simp only [word?, if_neg hd, if_neg hne]
    exact .none
  | case5 w' word c rest ih =>
    obtain ⟨d, v, rfl, hv, hcase, -⟩ := hR.cons h
    have hd := (eq_iff_of_toLower (hw c List.mem_cons_self).1 hcase).mpr rfl
    simp only [word?, if_pos hd, if_true]
    exact rel_map (ih (fun m hm => hw m (List.mem_cons_of_mem c hm)) hv) fun _ _ h => h
  | case6 w w' word c rest hne =>
    obtain ⟨d, v, rfl, -, hcase, -⟩ := hR.cons h
    have hd := mt (eq_iff_of_toLower (hw w List.mem_cons_self).1 hcase).mp hne
    simp only [word?, if_neg hd, if_neg hne]
    exact .none

/-- Before what may differ, a letter that cannot be the first of it is the same in both texts. -/
theorem Twin.eq_letter_iff {c d w : Char} {v : List Char} (h : R (c :: s) (d :: v))
    (hs : bound ≤ s.length + 1) (hw : w.toLower ≠ 'p' ∧ w.toLower ≠ 'b') : d = w ↔ c = w := by
  obtain ⟨d', v', heq, -, hcase, hsame⟩ := hR.cons h
  obtain ⟨rfl, rfl⟩ := List.cons.inj heq
  by_cases hlt : bound ≤ s.length
  · rw [hsame hlt]
  · have hfirst := hR.first h (by omega)
    have hne : c.toLower ≠ w.toLower := by
      intro heq
      rcases hfirst with hfirst | hfirst
      · exact hw.1 (heq ▸ hfirst)
      · exact hw.2 (heq ▸ hfirst)
    constructor
    · rintro rfl
      exact absurd hcase.symm hne
    · rintro rfl
      exact absurd rfl hne

/-- A word whose letters cannot be the first that may differ. -/
theorem word?_twin_of_le {w : List Char}
    (hw : ∀ m ∈ w, m ≠ '\n' ∧ m.toLower ≠ 'p' ∧ m.toLower ≠ 'b') (h : R s u)
    (hs : bound ≤ s.length) : Option.Rel (Rests R) (word? w s) (word? w u) := by
  induction w, s using word?.induct generalizing u with
  | case1 s => exact .none
  | case2 c word =>
    rw [word?_of_head (hR.head?_ne h (hw c List.mem_cons_self).1)]
    exact .none
  | case3 c rest =>
    obtain ⟨d, v, rfl, hv, -, -⟩ := hR.cons h
    have hd := (hR.eq_letter_iff h hs (hw c List.mem_cons_self).2).mpr rfl
    simp only [word?, if_pos hd, if_true]
    exact .some hv
  | case4 w c rest hne =>
    obtain ⟨d, v, rfl, -, -, -⟩ := hR.cons h
    have hd := mt (hR.eq_letter_iff h hs (hw w List.mem_cons_self).2).mp hne
    simp only [word?, if_neg hd, if_neg hne]
    exact .none
  | case5 w' word c rest ih =>
    obtain ⟨d, v, rfl, hv, -, -⟩ := hR.cons h
    have hletter := (hw c List.mem_cons_self).2
    have hd := (hR.eq_letter_iff h hs hletter).mpr rfl
    -- what may differ does not start with this letter, so that the word goes on before it
    have hrest : bound ≤ rest.length := by
      by_contra hlt
      have hlength : rest.length + 1 = bound := by
        rw [List.length_cons] at hs
        omega
      exact (hR.first h hlength).elim hletter.1 hletter.2
    simp only [word?, if_pos hd, if_true]
    exact rel_map (ih (fun m hm => hw m (List.mem_cons_of_mem c hm)) hv hrest) fun _ _ h => h
  | case6 w w' word c rest hne =>
    obtain ⟨d, v, rfl, -, -, -⟩ := hR.cons h
    have hd := mt (hR.eq_letter_iff h hs (hw w List.mem_cons_self).2).mp hne
    simp only [word?, if_neg hd, if_neg hne]
    exact .none

/-- A word that stands before what may differ. -/
theorem word?_twin_of_some {w : List Char} (h : R s u) {r : Shorter s} (hr : bound ≤ r.1.length)
    (hword : word? w s = some r) : ∃ r', word? w u = some r' ∧ Rests R r r' := by
  induction w, s using word?.induct generalizing u with
  | case1 s => cases hword
  | case2 c word => cases hword
  | case3 c rest =>
    obtain ⟨d, v, rfl, hv, -, hsame⟩ := hR.cons h
    rw [word?, if_pos rfl] at hword
    obtain rfl := Option.some.inj hword
    obtain rfl := hsame hr
    exact ⟨.tail d v, if_pos rfl, hv⟩
  | case4 w c rest hne =>
    rw [word?, if_neg hne] at hword
    cases hword
  | case5 w' word c rest ih =>
    obtain ⟨d, v, rfl, hv, -, hsame⟩ := hR.cons h
    rw [word?, if_pos rfl] at hword
    obtain ⟨q, hq, rfl⟩ := Option.map_eq_some_iff.mp hword
    obtain rfl := hsame (Nat.le_trans hr (Nat.le_of_lt q.2))
    obtain ⟨q', hq', hrests⟩ := ih hv hr hq
    refine ⟨q'.cons d, ?_, hrests⟩
    rw [word?, if_pos rfl, hq']
    rfl
  | case6 w w' word c rest hne =>
    rw [word?, if_neg hne] at hword
    cases hword

section Classes

variable {p : Char → Bool} (hp : IsClass p)

include hp

theorem dropWhile_twin (h : R s u) : R (s.dropWhile p) (u.dropWhile p) := by
  induction s generalizing u with
  | nil =>
    cases u with
    | nil => exact h
    | cons d v =>
      have hd : p d = false := by rw [hR.nil h d rfl, hp.line]
      rwa [List.dropWhile_nil, List.dropWhile_cons_of_neg (by simp [hd])]
  | cons c s ih =>
    obtain ⟨d, v, rfl, hv, hcase, -⟩ := hR.cons h
    have hd := hp.eq_of_toLower hcase
    rw [List.dropWhile_cons, List.dropWhile_cons, hd]
    split
    · exact ih hv
    · exact h

/-- A run has the same characters up to letter case, and the same if it stands before what may
differ. -/
theorem takeWhile_twin (h : R s u) :
    (u.takeWhile p).map Char.toLower = (s.takeWhile p).map Char.toLower ∧
      (bound ≤ (s.dropWhile p).length → u.takeWhile p = s.takeWhile p) := by
  induction s generalizing u with
  | nil =>
    cases u with
    | nil => exact ⟨rfl, fun _ => rfl⟩
    | cons d v =>
      have hd : p d = false := by rw [hR.nil h d rfl, hp.line]
      simp [hd]
  | cons c s ih =>
    obtain ⟨d, v, rfl, hv, hcase, hsame⟩ := hR.cons h
    have hd := hp.eq_of_toLower hcase
    rw [List.takeWhile_cons, List.takeWhile_cons, List.dropWhile_cons, hd]
    split
    · obtain ⟨hlower, htake⟩ := ih hv
      refine ⟨by simp [hcase, hlower], ?_⟩
      intro hle
      rw [htake hle, hsame (Nat.le_trans hle (length_dropWhile_le p s))]
    · exact ⟨rfl, fun _ => rfl⟩

theorem run?_twin (h : R s u) : Option.Rel (Answers bound R) (run? p s) (run? p u) := by
  cases s with
  | nil =>
    cases u with
    | nil => exact .none
    | cons d v =>
      have hd : p d = false := by rw [hR.nil h d rfl, hp.line]
      simp only [run?, hd]
      exact .none
  | cons c s =>
    obtain ⟨d, v, rfl, hv, hcase, hsame⟩ := hR.cons h
    have hd := hp.eq_of_toLower hcase
    simp only [run?, hd]
    split
    · refine .some ⟨dropWhile_twin hR hp hv, ?_⟩
      intro hle
      have hrest : bound ≤ s.length := Nat.le_trans hle (length_dropWhile_le p s)
      dsimp only at hle ⊢
      rw [(takeWhile_twin hR hp hv).2 hle, hsame hrest]
    · exact .none

end Classes

theorem drop_twin (h : R s u) {n : Nat} (hn : n ≤ s.length) :
    R (s.drop n) (u.drop n) ∧ (bound ≤ (s.drop n).length → u.take n = s.take n) := by
  induction n generalizing s u with
  | zero => exact ⟨h, fun _ => rfl⟩
  | succ n ih =>
    cases s with
    | nil => exact absurd hn (Nat.not_succ_le_zero n)
    | cons c s =>
      obtain ⟨d, v, rfl, hv, -, hsame⟩ := hR.cons h
      obtain ⟨hdrop, htake⟩ := ih hv (Nat.le_of_succ_le_succ hn)
      refine ⟨hdrop, ?_⟩
      intro hle
      rw [List.drop_succ_cons] at hle
      have hrest : bound ≤ s.length := Nat.le_trans hle (List.drop_suffix n s).length_le
      rw [List.take_succ_cons, List.take_succ_cons, htake hle, hsame hrest]

/-! ## Cutting before a pattern -/

section Patterns

variable {pattern : List Char} (hpattern : ∀ m ∈ pattern, IsMark m)

include hpattern

theorem isPrefixOf_twin (h : R s u) : pattern.isPrefixOf u = pattern.isPrefixOf s := by
  induction pattern generalizing s u with
  | nil => simp
  | cons m pattern ih =>
    have hm := hpattern m List.mem_cons_self
    cases s with
    | nil =>
      cases u with
      | nil => rfl
      | cons d v =>
        have hd : m ≠ d := by rw [hR.nil h d rfl]; exact hm.2
        simp [List.isPrefixOf, hd]
    | cons c s =>
      obtain ⟨d, v, rfl, hv, hcase, -⟩ := hR.cons h
      have hd : (m == d) = (m == c) := by
        rw [Bool.eq_iff_iff, beq_iff_eq, beq_iff_eq, eq_comm, eq_iff_of_toLower hm.1 hcase, eq_comm]
      rw [List.isPrefixOf, List.isPrefixOf, hd,
        ih (fun m' hm' => hpattern m' (List.mem_cons_of_mem m hm')) hv]

/-- The first occurrence of a pattern stays the first. -/
theorem breakBefore_twin_some (h : R s u) {before after : List Char}
    (hcut : breakBefore pattern s = some (before, after)) :
    ∃ before' after', breakBefore pattern u = some (before', after') ∧ R after after' ∧
      (bound ≤ after.length → before' = before) := by
  induction s generalizing u before with
  | nil =>
    simp only [breakBefore] at hcut
    split at hcut
    · rename_i hempty
      obtain ⟨rfl, rfl⟩ := Prod.mk.inj (Option.some.inj hcut)
      obtain rfl := List.isEmpty_iff.mp hempty
      refine ⟨[], u, ?_, h, fun _ => rfl⟩
      cases u <;> simp [breakBefore]
    · cases hcut
  | cons c s ih =>
    have hstart := isPrefixOf_twin hR hpattern h
    obtain ⟨d, v, rfl, hv, -, hsame⟩ := hR.cons h
    simp only [breakBefore] at hcut ⊢
    rw [hstart]
    split at hcut
    · rename_i hyes
      obtain ⟨rfl, rfl⟩ := Prod.mk.inj (Option.some.inj hcut)
      exact ⟨[], d :: v, if_pos hyes, h, fun _ => rfl⟩
    · rename_i hno
      obtain ⟨⟨first, last⟩, hrest, heq⟩ := Option.map_eq_some_iff.mp hcut
      obtain ⟨rfl, rfl⟩ := Prod.mk.inj heq
      obtain ⟨first', last', hrest', hlast, hfirst⟩ := ih hv hrest
      refine ⟨d :: first', last', by rw [if_neg hno, hrest']; rfl, hlast, ?_⟩
      intro hle
      have hlength : last.length ≤ s.length := by
        rw [← append_of_breakBefore hrest]
        simp
      rw [hfirst hle, hsame (Nat.le_trans hle hlength)]

/-- No occurrence of a pattern reaches over the end of the text. -/
theorem breakBefore_twin_none (h : R s u) (hcut : breakBefore pattern s = none)
    (hend : ∀ e, R [] e → breakBefore pattern e = none) : breakBefore pattern u = none := by
  induction s generalizing u with
  | nil => exact hend u h
  | cons c s ih =>
    have hstart := isPrefixOf_twin hR hpattern h
    obtain ⟨d, v, rfl, hv, -, -⟩ := hR.cons h
    simp only [breakBefore] at hcut ⊢
    rw [hstart]
    split at hcut
    · cases hcut
    · rename_i hno
      rw [if_neg hno, ih hv (Option.map_eq_none_iff.mp hcut)]
      rfl

end Patterns

end Twins

end GraphConformance.Text
