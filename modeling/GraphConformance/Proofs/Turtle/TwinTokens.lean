import GraphConformance.Proofs.Turtle.Twins

/-!
# Tokens of texts that are read alike

In two texts that are read alike the same token stands at the start, or none in either. Two readers
look further than that. A text in single quote characters may hold an escaped line end, so that only
an answer is kept, not its absence (`shortString?_twin`). And a string that opens with three quote
characters and is not closed in its text is closed in the text that follows if that has the same
three (`longString?_twin`): `ClosesWithin` says that this happens nowhere.
-/

set_option autoImplicit false

namespace GraphConformance.Turtle

open Text

variable {s u : List Char}

/-! ## Classes of characters -/

theorem isClass_isNameChar : IsClass isNameChar := isClass_of_capitals (by decide) (by decide)

theorem isClass_isLocalChar : IsClass isLocalChar := isClass_of_capitals (by decide) (by decide)

theorem isClass_isReferenceChar : IsClass isReferenceChar :=
  isClass_of_capitals (by decide) (by decide)

theorem isClass_isDigit : IsClass Char.isDigit := isClass_of_capitals (by decide) (by decide)

theorem isClass_isTagChar : IsClass isTagChar := isClass_of_capitals (by decide) (by decide)

theorem isClass_continuesWord : IsClass continuesWord := isClass_of_capitals (by decide) (by decide)

theorem isClass_exponent : IsClass fun c => decide (c = 'e' ∨ c = 'E') :=
  isClass_of_capitals (by decide) (by decide)

theorem isBlank_toLower (c : Char) : isBlank c.toLower = isBlank c := eq_of_capitals (by decide) c

theorem isWhiteSpace_toLower (c : Char) : isWhiteSpace c.toLower = isWhiteSpace c :=
  eq_of_capitals (by decide) c

theorem length_trimDots (name : List Char) :
    (trimDots (name.map Char.toLower)).length = (trimDots name).length := by
  have hdot : ((· == '.') ∘ Char.toLower) = (· == '.') := by
    funext c
    exact eq_of_capitals (p := (· == '.')) (by decide) c
  rw [trimDots, ← List.map_reverse, List.dropWhile_map, hdot, trimDots]
  simp

theorem number?_of_no_sign {t : List Char} (hminus : t.head? ≠ some '-')
    (hplus : t.head? ≠ some '+') :
    number? t = (unsigned? t).map fun ((digits, datatype), r) =>
      (⟨String.ofList digits, .typed datatype⟩, r) := by
  rw [number?]
  · rintro rest rfl
    exact hminus rfl
  · rintro rest rfl
    exact hplus rfl

/-! ## Quoted texts -/

theorem exists_of_startsQuoted (h : startsQuoted s = true) :
    ∃ q ∈ ['"', '\x27'], s.head? = some q := by
  cases s with
  | nil => cases h
  | cons c rest => exact ⟨c, by simpa [startsQuoted] using h, rfl⟩

theorem le_of_readLiteralType {value : List Char} {r q : Shorter s} {atom : Atom}
    (h : readLiteralType value r = .ok (atom, q)) : q.1.length ≤ r.1.length := by
  rw [readLiteralType] at h
  split at h
  · rename_i p _
    split at h
    · rename_i tag z _
      obtain ⟨-, rfl⟩ := Prod.mk.inj (Except.ok.inj h)
      exact Nat.le_of_lt (Nat.lt_trans z.2 p.2)
    · cases h
  · split at h
    · rename_i p _
      split at h
      · rename_i datatype z _
        obtain ⟨-, rfl⟩ := Prod.mk.inj (Except.ok.inj h)
        exact Nat.le_of_lt (Nat.lt_trans z.2 p.2)
      · cases h
    · obtain ⟨-, rfl⟩ := Prod.mk.inj (Except.ok.inj h)
      exact Nat.le_refl _

/-- Each string of the text that opens with three quote characters is closed in the text by the same
three, unless these do not occur in what may follow the text. -/
def ClosesWithin (R : List Char → List Char → Prop) (s : List Char) : Prop :=
  ∀ t ∈ stringStarts s, ∀ q ∈ ['"', '\x27'], (word? [q, q, q] t).isSome →
    longString? q t = none → ∀ e, R [] e → breakBefore [q, q, q] e = none

theorem ClosesWithin.of_follows {R : List Char → List Char → Prop} {r : List Char}
    (h : ClosesWithin R s) (hr : Follows s r) :
    ClosesWithin R r :=
  fun t ht => h t (hr.starts ht)

section Twins

variable {bound : Nat} {R : List Char → List Char → Prop} (hR : Twin bound R)

include hR

/-! ## Gaps -/

/-- A gap that ends in the text ends alike in both. -/
theorem skipGap_twin {isGap : Char → Bool} (hgap : ∀ c, isGap c.toLower = isGap c)
    (inComment : Bool) (h : R s u) (hne : skipGap isGap inComment s ≠ []) :
    R (skipGap isGap inComment s) (skipGap isGap inComment u) := by
  induction s generalizing u inComment with
  | nil => exact absurd rfl hne
  | cons c s ih =>
    obtain ⟨d, v, rfl, hv, hcase, -⟩ := hR.cons h
    have hline : (d != '\n') = (c != '\n') := by
      rw [Bool.eq_iff_iff, bne_iff_ne, bne_iff_ne, Ne, Ne, eq_iff_of_toLower (by decide) hcase]
    have hcomment : d = '#' ↔ c = '#' := eq_iff_of_toLower (by decide) hcase
    have hd : isGap d = isGap c := by rw [← hgap d, hcase, hgap]
    simp only [skipGap] at hne ⊢
    simp only [hline, hd, hcomment]
    split
    · rename_i hinside
      rw [if_pos hinside] at hne
      exact ih _ hv hne
    · rename_i hinside
      rw [if_neg hinside] at hne
      split
      · rename_i hyes
        rw [if_pos hyes] at hne
        exact ih _ hv hne
      · rename_i hno
        rw [if_neg hno] at hne
        split
        · rename_i hyes
          rw [if_pos hyes] at hne
          exact ih _ hv hne
        · exact h

theorem skip_twin (h : R s u) (hne : skip s ≠ []) : R (skip s) (skip u) :=
  skipGap_twin hR isBlank_toLower false h hne

theorem skipSemicolons_twin (h : R s u) (hne : skipSemicolons s ≠ []) :
    R (skipSemicolons s) (skipSemicolons u) :=
  skipGap_twin hR (eq_of_capitals (by decide)) false h hne

/-! ## Names and references -/

theorem reference?_twin (h : R s u) :
    Option.Rel (Answers bound R) (reference? s) (reference? u) := by
  by_cases hhead : s.head? = some '<'
  · obtain ⟨rest, rfl⟩ := List.head?_eq_some_iff.mp hhead
    obtain ⟨d, v, rfl, hv, hcase, -⟩ := hR.cons h
    obtain rfl : d = '<' := (eq_iff_of_toLower (by decide) hcase).mpr rfl
    have htake := (takeWhile_twin hR isClass_isReferenceChar hv).2
    have hmark : Option.Rel (Rests R) (mark? '>' (rest.dropWhile isReferenceChar))
        (mark? '>' (v.dropWhile isReferenceChar)) :=
      mark?_twin hR (by decide) (dropWhile_twin hR isClass_isReferenceChar hv)
    simp only [reference?]
    generalize mark? '>' (rest.dropWhile isReferenceChar) = x at hmark
    generalize mark? '>' (v.dropWhile isReferenceChar) = y at hmark
    cases hmark with
    | none => exact .none
    | @some r r' hr =>
      exact .some ⟨hr, fun hle => htake (Nat.le_trans hle (Nat.le_of_lt r.2))⟩
  · rw [reference?_of_head hhead, reference?_of_head (mt (hR.head?_iff (by decide) h).mp hhead)]
    exact .none

theorem prefixedName?_twin (h : R s u) :
    Option.Rel (Answers bound R) (prefixedName? s) (prefixedName? u) := by
  have htake := (takeWhile_twin hR isClass_isNameChar h).2
  have hmark : Option.Rel (Rests R) (mark? ':' (s.dropWhile isNameChar))
      (mark? ':' (u.dropWhile isNameChar)) :=
    mark?_twin hR (by decide) (dropWhile_twin hR isClass_isNameChar h)
  simp only [prefixedName?]
  generalize mark? ':' (s.dropWhile isNameChar) = x at hmark
  generalize mark? ':' (u.dropWhile isNameChar) = y at hmark
  cases hmark with
  | none => exact .none
  | @some r r' hr =>
    have hinitial : ∀ t : List Char, trimDots (t.takeWhile isLocalChar) <+: t :=
      fun t => (prefix_trimDots _).trans (List.takeWhile_prefix _)
    -- letter case does not decide where the dots at the end of a name start
    have hlength : (trimDots (r'.1.takeWhile isLocalChar)).length =
        (trimDots (r.1.takeWhile isLocalChar)).length := by
      rw [← length_trimDots, (takeWhile_twin hR isClass_isLocalChar hr).1, length_trimDots]
    obtain ⟨hdrop, hsame⟩ := drop_twin hR hr (hinitial r.1).length_le
    refine .some ⟨?_, ?_⟩
    · dsimp only
      rw [hlength]
      exact hdrop
    · intro hle
      dsimp only at hle ⊢
      have hr' : bound ≤ (s.dropWhile isNameChar).length :=
        Nat.le_trans (Nat.le_trans hle (List.drop_suffix _ _).length_le) (Nat.le_of_lt r.2)
      have hlocal := hsame hle
      rw [← hlength, ← List.prefix_iff_eq_take.mp (hinitial r'.1), hlength,
        ← List.prefix_iff_eq_take.mp (hinitial r.1)] at hlocal
      rw [htake hr', hlocal]

theorem label?_twin (h : R s u) : Option.Rel (Answers bound R) (label? s) (label? u) := by
  have hword : Option.Rel (Rests R) (word? ['_', ':'] s) (word? ['_', ':'] u) :=
    word?_twin hR (List.all_iff_forall_prop.mp (by decide)) h
  rw [label?, label?]
  generalize word? ['_', ':'] s = x at hword
  generalize word? ['_', ':'] u = y at hword
  cases hword with
  | none => exact .none
  | some hr => exact rel_map (run?_twin hR isClass_isNameChar hr) fun _ _ h => h

theorem readReference?_twin (h : R s u) :
    Option.Rel (Answers bound R) (readReference? s) (readReference? u) := by
  have hreference := reference?_twin hR h
  rw [readReference?, readReference?]
  generalize reference? s = x at hreference
  generalize reference? u = y at hreference
  cases hreference with
  | none =>
    refine rel_map (prefixedName?_twin hR h) ?_
    rintro ⟨name, r⟩ ⟨name', r'⟩ ⟨hr, hsame⟩
    exact ⟨hr, fun hle => by rw [show name' = name from hsame hle]⟩
  | @some answer answer' h =>
    obtain ⟨text, r⟩ := answer
    obtain ⟨text', r'⟩ := answer'
    obtain ⟨hr, hsame⟩ := h
    exact .some ⟨hr, fun hle => congrArg Reference.bracketed (hsame hle)⟩

/-! ## Numbers and truth values -/

theorem fraction?_twin (h : R s u) : Option.Rel (Answers bound R) (fraction? s) (fraction? u) := by
  have hmark : Option.Rel (Rests R) (mark? '.' s) (mark? '.' u) := mark?_twin hR (by decide) h
  rw [fraction?, fraction?]
  generalize mark? '.' s = x at hmark
  generalize mark? '.' u = y at hmark
  cases hmark with
  | none => exact .none
  | some hr =>
    refine rel_map (run?_twin hR isClass_isDigit hr) ?_
    rintro ⟨digits, r⟩ ⟨digits', r'⟩ ⟨hr, hsame⟩
    exact ⟨hr, fun hle => congrArg ('.' :: ·) (hsame hle)⟩

theorem exponent?_twin (h : R s u) : Option.Rel (Answers bound R) (exponent? s) (exponent? u) := by
  have hletter := isClass_exponent
  cases s with
  | nil =>
    cases u with
    | nil => exact .none
    | cons d v =>
      obtain rfl := hR.nil h d rfl
      simp only [exponent?]
      rw [if_neg (by decide)]
      exact .none
  | cons e rest =>
    obtain ⟨e', v, rfl, hv, hcase, hsame⟩ := hR.cons h
    have he' : (e' = 'e' ∨ e' = 'E') ↔ (e = 'e' ∨ e = 'E') :=
      decide_eq_decide.mp (hletter.eq_of_toLower hcase)
    by_cases he : e = 'e' ∨ e = 'E'
    · have he' := he'.mpr he
      cases rest with
      | nil =>
        simp only [exponent?, if_pos he]
        cases v with
        | nil =>
          simp only [if_pos he']
          exact .none
        | cons d v =>
          obtain rfl := hR.nil hv d rfl
          simp only [if_pos he', run?]
          rw [if_neg (by decide), if_neg (by decide)]
          exact .none
      | cons c after =>
        obtain ⟨c', w, rfl, hw, hsign, hsame'⟩ := hR.cons hv
        have hc' : (c' = '+' ∨ c' = '-') ↔ (c = '+' ∨ c = '-') :=
          or_congr (eq_iff_of_toLower (by decide) hsign) (eq_iff_of_toLower (by decide) hsign)
        by_cases hc : c = '+' ∨ c = '-'
        · simp only [exponent?, if_pos he, if_pos he', if_pos hc, if_pos (hc'.mpr hc)]
          refine rel_map (run?_twin hR isClass_isDigit hw) ?_
          rintro ⟨digits, r⟩ ⟨digits', r'⟩ ⟨hr, hdigits⟩
          refine ⟨hr, fun hle => ?_⟩
          have hafter : bound ≤ after.length := Nat.le_trans hle (Nat.le_of_lt r.2)
          dsimp only at hdigits ⊢
          rw [hdigits hle, hsame' hafter, hsame (Nat.le_succ_of_le hafter)]
        · simp only [exponent?, if_pos he, if_pos he', if_neg hc, if_neg (mt hc'.mp hc)]
          refine rel_map (run?_twin hR isClass_isDigit hv) ?_
          rintro ⟨digits, r⟩ ⟨digits', r'⟩ ⟨hr, hdigits⟩
          refine ⟨hr, fun hle => ?_⟩
          dsimp only at hdigits ⊢
          rw [hdigits hle, hsame (Nat.le_trans hle (Nat.le_of_lt r.2))]
    · simp only [exponent?, if_neg he, if_neg (mt he'.mp he)]
      exact .none

theorem unsigned?_twin (h : R s u) : Option.Rel (Answers bound R) (unsigned? s) (unsigned? u) := by
  have hdigits := run?_twin hR isClass_isDigit h
  rw [unsigned?, unsigned?]
  generalize run? Char.isDigit s = x at hdigits
  generalize run? Char.isDigit u = y at hdigits
  cases hdigits with
  | none => exact .none
  | @some answer answer' h =>
    obtain ⟨digits, r⟩ := answer
    obtain ⟨digits', r'⟩ := answer'
    obtain ⟨hr, hdigits⟩ := h
    dsimp only at hr hdigits ⊢
    have hfraction := fraction?_twin hR hr
    generalize fraction? r.1 = x at hfraction
    generalize fraction? r'.1 = y at hfraction
    cases hfraction with
    | none =>
      dsimp only
      have hexponent := exponent?_twin hR hr
      generalize exponent? r.1 = x at hexponent
      generalize exponent? r'.1 = y at hexponent
      cases hexponent with
      | none => exact .some ⟨hr, fun hle => by rw [hdigits hle]⟩
      | @some answer answer' h =>
        obtain ⟨power, q⟩ := answer
        obtain ⟨power', q'⟩ := answer'
        obtain ⟨hq, hpower⟩ := h
        refine .some ⟨hq, fun hle => ?_⟩
        dsimp only at hpower ⊢
        rw [hpower hle, hdigits (Nat.le_trans hle (Nat.le_of_lt q.2))]
    | @some answer answer' h =>
      obtain ⟨places, p⟩ := answer
      obtain ⟨places', p'⟩ := answer'
      obtain ⟨hp, hplaces⟩ := h
      dsimp only at hp hplaces ⊢
      have hexponent := exponent?_twin hR hp
      generalize exponent? p.1 = x at hexponent
      generalize exponent? p'.1 = y at hexponent
      cases hexponent with
      | none =>
        refine .some ⟨hp, fun hle => ?_⟩
        dsimp only
        rw [hplaces hle, hdigits (Nat.le_trans hle (Nat.le_of_lt p.2))]
      | @some answer answer' h =>
        obtain ⟨power, q⟩ := answer
        obtain ⟨power', q'⟩ := answer'
        obtain ⟨hq, hpower⟩ := h
        refine .some ⟨hq, fun hle => ?_⟩
        have hbefore : bound ≤ p.1.length := Nat.le_trans hle (Nat.le_of_lt q.2)
        dsimp only at hpower ⊢
        rw [hpower hle, hplaces hbefore, hdigits (Nat.le_trans hbefore (Nat.le_of_lt p.2))]

theorem number?_twin (h : R s u) : Option.Rel (Answers bound R) (number? s) (number? u) := by
  by_cases hminus : s.head? = some '-'
  · obtain ⟨rest, rfl⟩ := List.head?_eq_some_iff.mp hminus
    obtain ⟨d, v, rfl, hv, hcase, -⟩ := hR.cons h
    obtain rfl : d = '-' := (eq_iff_of_toLower (by decide) hcase).mpr rfl
    simp only [number?]
    refine rel_map (unsigned?_twin hR hv) ?_
    rintro ⟨⟨digits, datatype⟩, r⟩ ⟨⟨digits', datatype'⟩, r'⟩ ⟨hr, hsame⟩
    refine ⟨hr, fun hle => ?_⟩
    obtain ⟨rfl, rfl⟩ := Prod.mk.inj (hsame hle)
    rfl
  · by_cases hplus : s.head? = some '+'
    · obtain ⟨rest, rfl⟩ := List.head?_eq_some_iff.mp hplus
      obtain ⟨d, v, rfl, hv, hcase, -⟩ := hR.cons h
      obtain rfl : d = '+' := (eq_iff_of_toLower (by decide) hcase).mpr rfl
      simp only [number?]
      refine rel_map (unsigned?_twin hR hv) ?_
      rintro ⟨⟨digits, datatype⟩, r⟩ ⟨⟨digits', datatype'⟩, r'⟩ ⟨hr, hsame⟩
      refine ⟨hr, fun hle => ?_⟩
      obtain ⟨rfl, rfl⟩ := Prod.mk.inj (hsame hle)
      rfl
    · have hminus' := mt (hR.head?_iff (by decide) h).mp hminus
      have hplus' := mt (hR.head?_iff (by decide) h).mp hplus
      rw [number?_of_no_sign hminus hplus, number?_of_no_sign hminus' hplus']
      refine rel_map (unsigned?_twin hR h) ?_
      rintro ⟨⟨digits, datatype⟩, r⟩ ⟨⟨digits', datatype'⟩, r'⟩ ⟨hr, hsame⟩
      refine ⟨hr, fun hle => ?_⟩
      obtain ⟨rfl, rfl⟩ := Prod.mk.inj (hsame hle)
      rfl

theorem endsWordHere_twin (h : R s u) : endsWordHere u = endsWordHere s := by
  cases s with
  | nil =>
    cases u with
    | nil => rfl
    | cons d v =>
      obtain rfl := hR.nil h d rfl
      rfl
  | cons c s =>
    obtain ⟨d, v, rfl, -, hcase, -⟩ := hR.cons h
    rw [endsWordHere, endsWordHere, isClass_continuesWord.eq_of_toLower hcase]

theorem truthValue?_twin (h : R s u) (hs : bound ≤ s.length) :
    Option.Rel (Answers bound R) (truthValue? s) (truthValue? u) := by
  have htrue := word?_twin_of_le hR (w := "true".toList)
    (List.all_iff_forall_prop.mp (by decide)) h hs
  have hfalse := word?_twin_of_le hR (w := "false".toList)
    (List.all_iff_forall_prop.mp (by decide)) h hs
  rw [truthValue?, truthValue?]
  generalize word? "true".toList s = x at htrue
  generalize word? "true".toList u = y at htrue
  cases htrue with
  | @some r r' hr =>
    dsimp only
    rw [endsWordHere_twin hR hr]
    split
    · exact .some ⟨hr, fun _ => rfl⟩
    · exact .none
  | none =>
    dsimp only
    generalize word? "false".toList s = x at hfalse
    generalize word? "false".toList u = y at hfalse
    cases hfalse with
    | none => exact .none
    | @some r r' hr =>
      dsimp only
      rw [endsWordHere_twin hR hr]
      split
      · exact .some ⟨hr, fun _ => rfl⟩
      · exact .none

/-! ## Strings -/

theorem shortBody?_twin {q : Char} {body : List Char} {r : Shorter s} (h : R s u)
    (hr : bound ≤ r.1.length) (hbody : shortBody? q s = some (body, r)) :
    ∃ r', shortBody? q u = some (body, r') ∧ Rests R r r' := by
  induction s using shortBody?.induct q generalizing u body with
  | case1 => cases hbody
  | case2 rest =>
    obtain ⟨d, v, rfl, hv, -, hsame⟩ := hR.cons h
    rw [shortBody?_quote] at hbody
    obtain ⟨rfl, rfl⟩ := Prod.mk.inj (Option.some.inj hbody)
    obtain rfl := hsame hr
    exact ⟨_, shortBody?_quote d v, hv⟩
  | case3 rest hquote =>
    cases rest with
    | nil => simp [shortBody?, hquote] at hbody
    | cons d rest => simp [shortBody?, hquote] at hbody
  | case4 hquote _ => simp [shortBody?, hquote] at hbody
  | case5 d rest hquote _ ih =>
    rw [shortBody?_escaped hquote] at hbody
    obtain ⟨⟨more, p⟩, hp, heq⟩ := Option.map_eq_some_iff.mp hbody
    obtain ⟨rfl, rfl⟩ := Prod.mk.inj heq
    -- an escape and its character stand before what may differ, since the closing quote does
    have hrest : bound ≤ rest.length := Nat.le_trans hr (Nat.le_of_lt p.2)
    obtain ⟨c', v, rfl, hv, -, hsame⟩ := hR.cons h
    obtain rfl := hsame (Nat.le_succ_of_le hrest)
    obtain ⟨d', w, rfl, hw, -, hsame'⟩ := hR.cons hv
    obtain rfl := hsame' hrest
    obtain ⟨p', hp', hrests⟩ := ih hw hr hp
    refine ⟨(p'.cons d').cons '\\', ?_, hrests⟩
    rw [shortBody?_escaped hquote, hp']
    rfl
  | case6 c rest hquote hline hbackslash ih =>
    rw [shortBody?_cons hquote hbackslash hline] at hbody
    obtain ⟨⟨more, p⟩, hp, heq⟩ := Option.map_eq_some_iff.mp hbody
    obtain ⟨rfl, rfl⟩ := Prod.mk.inj heq
    obtain ⟨d, v, rfl, hv, -, hsame⟩ := hR.cons h
    obtain rfl := hsame (Nat.le_trans hr (Nat.le_of_lt p.2))
    obtain ⟨p', hp', hrests⟩ := ih hv hr hp
    refine ⟨p'.cons d, ?_, hrests⟩
    rw [shortBody?_cons hquote hbackslash hline, hp']
    rfl

theorem shortString?_twin {q : Char} (hq : IsMark q) {body : List Char} {r : Shorter s} (h : R s u)
    (hr : bound ≤ r.1.length) (hstring : shortString? q s = some (body, r)) :
    ∃ r', shortString? q u = some (body, r') ∧ Rests R r r' := by
  rw [shortString?] at hstring
  split at hstring
  · rename_i p hp
    obtain ⟨p', hp', hrests⟩ := exists_of_rel (mark?_twin hR hq h) hp
    obtain ⟨⟨more, z⟩, hz, heq⟩ := Option.map_eq_some_iff.mp hstring
    obtain ⟨rfl, rfl⟩ := Prod.mk.inj heq
    obtain ⟨z', hz', hrest⟩ := shortBody?_twin hR hrests hr hz
    refine ⟨p'.trans z', ?_, hrest⟩
    rw [shortString?, hp']
    dsimp only
    rw [hz']
    rfl
  · cases hstring

/-- A string between triple quotes is closed where it was, or stays open. -/
theorem longString?_twin {q : Char} (hq : IsMark q) (h : R s u)
    (hclosed : (word? [q, q, q] s).isSome → longString? q s = none →
      ∀ e, R [] e → breakBefore [q, q, q] e = none) :
    Option.Rel (Answers bound R) (longString? q s) (longString? q u) := by
  have hpattern : ∀ m ∈ [q, q, q], IsMark m := by simpa using hq
  have hrel := word?_twin hR hpattern h
  cases hword : word? [q, q, q] s with
  | none =>
    rw [longString?_of_word?_eq_none hword,
      longString?_of_word?_eq_none (eq_none_of_rel hrel hword)]
    exact .none
  | some r =>
    obtain ⟨r', hword', hrests⟩ := exists_of_rel hrel hword
    cases hcut : breakBefore [q, q, q] r.1 with
    | none =>
      have hopen := longString?_of_open hword hcut
      have hcut' := breakBefore_twin_none hR hpattern hrests hcut
        (hclosed (by rw [hword]; rfl) hopen)
      rw [hopen, longString?_of_open hword' hcut']
      exact .none
    | some cut =>
      obtain ⟨body, after⟩ := cut
      obtain ⟨body', after', hcut', hafter, hbody⟩ := breakBefore_twin_some hR hpattern hrests hcut
      obtain ⟨_, hstring⟩ := longString?_of_closed hword hcut
      obtain ⟨_, hstring'⟩ := longString?_of_closed hword' hcut'
      have hlength : 3 ≤ after.length :=
        (List.isPrefixOf_iff_prefix.mp (isPrefixOf_of_breakBefore hcut)).length_le
      rw [hstring, hstring']
      refine .some ⟨(drop_twin hR hafter hlength).1, ?_⟩
      intro hle
      exact hbody (Nat.le_trans hle (List.drop_suffix 3 after).length_le)

theorem startsQuoted_twin (h : R s u) : startsQuoted u = startsQuoted s := by
  cases s with
  | nil =>
    cases u with
    | nil => rfl
    | cons d v =>
      obtain rfl := hR.nil h d rfl
      rfl
  | cons c s =>
    obtain ⟨d, v, rfl, -, hcase, -⟩ := hR.cons h
    rw [startsQuoted, startsQuoted, Bool.eq_iff_iff, Bool.or_eq_true, Bool.or_eq_true]
    simp only [beq_iff_eq]
    exact or_congr (eq_iff_of_toLower (by decide) hcase) (eq_iff_of_toLower (by decide) hcase)

theorem string?_twin (h : R s u) (hclosed : ClosesWithin R s) (hquote : startsQuoted s = true)
    {value : List Char} {r : Shorter s} (hr : bound ≤ r.1.length)
    (hstring : string? s = some (value, r)) :
    ∃ r', string? u = some (value, r') ∧ Rests R r r' := by
  obtain ⟨q, hq, hhead⟩ := exists_of_startsQuoted hquote
  have hmark : IsMark q := by
    have hmarks : ∀ m ∈ ['"', '\x27'], IsMark m := List.all_iff_forall_prop.mp (by decide)
    exact hmarks q hq
  have hhead' : u.head? = some q := (hR.head?_iff hmark h).mpr hhead
  have hstart : s ∈ stringStarts s := by
    rw [stringStarts_of_string? hquote hstring]
    exact List.mem_cons_self
  have hlong := longString?_twin hR hmark h (hclosed s hstart q hq)
  rw [string?_of_head hq hhead] at hstring
  obtain ⟨⟨body, p⟩, hp, heq⟩ := Option.map_eq_some_iff.mp hstring
  obtain ⟨rfl, rfl⟩ := Prod.mk.inj heq
  -- a short string is only tried where no long one is, and that stays so
  have hbody : ∃ p', (longString? q u).or (shortString? q u) = some (body, p') ∧ Rests R p p' := by
    rcases Option.or_eq_some_iff.mp hp with hp | ⟨hnone, hp⟩
    · obtain ⟨⟨body', p'⟩, hp', hrests, hsame⟩ := exists_of_rel hlong hp
      obtain rfl : body' = body := hsame hr
      exact ⟨p', by rw [hp']; rfl, hrests⟩
    · obtain ⟨p', hp', hrests⟩ := shortString?_twin hR hmark h hr hp
      exact ⟨p', by rw [eq_none_of_rel hlong hnone, Option.none_or, hp'], hrests⟩
  obtain ⟨p', hp', hrests⟩ := hbody
  refine ⟨p', ?_, hrests⟩
  rw [string?_of_head hq hhead', hp']
  rfl

/-! ## Atoms -/

theorem readLiteralType_twin {value : List Char} {r : Shorter s} {r' : Shorter u}
    (h : Rests R r r') {atom : Atom} {q : Shorter s} (hq : bound ≤ q.1.length)
    (hread : readLiteralType value r = .ok (atom, q)) :
    ∃ q', readLiteralType value r' = .ok (atom, q') ∧ Rests R q q' := by
  have hmark := mark?_twin hR (m := '@') (by decide) h
  have hword := word?_twin hR (w := ['^', '^']) (List.all_iff_forall_prop.mp (by decide)) h
  rw [readLiteralType] at hread
  split at hread
  · rename_i p hp
    obtain ⟨p', hp', hrests⟩ := exists_of_rel hmark hp
    split at hread
    · rename_i tag z hz
      obtain ⟨⟨tag', z'⟩, hz', hend, hsame⟩ :=
        exists_of_rel (run?_twin hR isClass_isTagChar hrests) hz
      obtain ⟨rfl, rfl⟩ := Prod.mk.inj (Except.ok.inj hread)
      obtain rfl : tag' = tag := hsame hq
      refine ⟨(r'.trans p').trans z', ?_, hend⟩
      rw [readLiteralType, hp']
      dsimp only
      rw [show (fun c => isAlphanumeric c || c == '-') = isTagChar from rfl, hz']
    · cases hread
  · rename_i hp
    have hp' := eq_none_of_rel hmark hp
    split at hread
    · rename_i p hp
      obtain ⟨p', hword', hrests⟩ := exists_of_rel hword hp
      split at hread
      · rename_i datatype z hz
        obtain ⟨⟨datatype', z'⟩, hz', hend, hsame⟩ :=
          exists_of_rel (readReference?_twin hR hrests) hz
        obtain ⟨rfl, rfl⟩ := Prod.mk.inj (Except.ok.inj hread)
        obtain rfl : datatype' = datatype := hsame hq
        refine ⟨(r'.trans p').trans z', ?_, hend⟩
        rw [readLiteralType, hp']
        dsimp only
        rw [hword']
        dsimp only
        rw [hz']
      · cases hread
    · rename_i hnone
      obtain ⟨rfl, rfl⟩ := Prod.mk.inj (Except.ok.inj hread)
      refine ⟨r', ?_, h⟩
      rw [readLiteralType, hp']
      dsimp only
      rw [eq_none_of_rel hword hnone]

theorem readAtom_twin (h : R s u) (hclosed : ClosesWithin R s) {atom : Atom} {r : Shorter s}
    (hr : bound ≤ r.1.length) (hread : readAtom s = .ok (atom, r)) :
    ∃ r', readAtom u = .ok (atom, r') ∧ Rests R r r' := by
  have hs : bound ≤ s.length := Nat.le_trans hr (Nat.le_of_lt r.2)
  rw [readAtom] at hread ⊢
  split at hread
  · rename_i text p hp
    obtain ⟨⟨text', p'⟩, hp', hrests, hsame⟩ := exists_of_rel (reference?_twin hR h) hp
    obtain ⟨rfl, rfl⟩ := Prod.mk.inj (Except.ok.inj hread)
    obtain rfl : text' = text := hsame hr
    exact ⟨p', by rw [hp'], hrests⟩
  · rename_i hreference
    rw [eq_none_of_rel (reference?_twin hR h) hreference]
    split at hread
    · rename_i name p hp
      obtain ⟨⟨name', p'⟩, hp', hrests, hsame⟩ := exists_of_rel (label?_twin hR h) hp
      obtain ⟨rfl, rfl⟩ := Prod.mk.inj (Except.ok.inj hread)
      obtain rfl : name' = name := hsame hr
      exact ⟨p', by rw [hp'], hrests⟩
    · rename_i hlabel
      rw [eq_none_of_rel (label?_twin hR h) hlabel, startsQuoted_twin hR h]
      dsimp only
      split at hread
      · rename_i hquote
        rw [if_pos hquote]
        split at hread
        · rename_i value p hp
          have hp_le : bound ≤ p.1.length :=
            Nat.le_trans hr (le_of_readLiteralType hread)
          obtain ⟨p', hp', hrests⟩ := string?_twin hR h hclosed hquote hp_le hp
          rw [hp']
          exact readLiteralType_twin hR hrests hr hread
        · cases hread
      · rename_i hquote
        have hplain := rel_or (number?_twin hR h) (truthValue?_twin hR h hs)
        rw [if_neg hquote]
        split at hread
        · rename_i l p hp
          obtain ⟨⟨l', p'⟩, hp', hrests, hsame⟩ := exists_of_rel hplain hp
          obtain ⟨rfl, rfl⟩ := Prod.mk.inj (Except.ok.inj hread)
          obtain rfl : l' = l := hsame hr
          exact ⟨p', by rw [hp'], hrests⟩
        · rename_i hnone
          rw [eq_none_of_rel hplain hnone]
          split at hread
          · rename_i label rest p hp
            obtain ⟨⟨name', p'⟩, hp', hrests, hsame⟩ :=
              exists_of_rel (prefixedName?_twin hR h) hp
            obtain ⟨rfl, rfl⟩ := Prod.mk.inj (Except.ok.inj hread)
            obtain rfl : name' = (label, rest) := hsame hr
            exact ⟨p', by rw [hp'], hrests⟩
          · cases hread

end Twins

end GraphConformance.Turtle
