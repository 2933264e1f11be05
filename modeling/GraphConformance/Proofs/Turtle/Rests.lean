import GraphConformance.Proofs.Turtle.Tokens
import GraphConformance.Turtle.Grammar
import Mathlib.Data.List.TakeWhile

/-!
# What reading leaves

Whatever a reader answers, what it leaves of its text is an end of the text, and starts where a
token may start (`Follows`). The second half is said with the places at which strings start
(`stringStarts`): none comes to light in the rest that was not one in the text, because no reader
stops inside a string, a comment or a reference. A place at which reading halts is an end of the
text too (`Within`).

Each reader of characters has a lemma of its own; the productions of the grammar, which call each
other, are done together (`within_readTerm` to `within_readPredicates`).
-/

set_option autoImplicit false

namespace GraphConformance

open Text

/-! ## What marks and words leave -/

namespace Text

theorem eq_cons_of_mark? {m : Char} {s : List Char} {r : Shorter s} (h : mark? m s = some r) :
    s = m :: r.1 := by
  cases s with
  | nil => cases h
  | cons c rest =>
    rw [mark?] at h
    split at h
    · rename_i hc
      obtain rfl := Option.some.inj h
      rw [hc]
      rfl
    · cases h

theorem eq_append_of_word? {word s : List Char} {r : Shorter s} (h : word? word s = some r) :
    s = word ++ r.1 := by
  induction word, s using word?.induct with
  | case1 s => cases h
  | case2 w word => cases h
  | case3 w rest =>
    rw [word?, if_pos rfl] at h
    obtain rfl := Option.some.inj h
    rfl
  | case4 w c rest hne =>
    rw [word?, if_neg hne] at h
    cases h
  | case5 w' word w rest ih =>
    rw [word?, if_pos rfl] at h
    obtain ⟨q, hq, rfl⟩ := Option.map_eq_some_iff.mp h
    exact congrArg (w :: ·) (ih hq)
  | case6 w w' word c rest hne =>
    rw [word?, if_neg hne] at h
    cases h

theorem word?_eq_none_of_append {w w' rest : List Char} (h : ∀ t, w ++ t ≠ w' ++ rest) :
    word? w (w' ++ rest) = none := by
  cases hword : word? w (w' ++ rest) with
  | none => rfl
  | some r => exact absurd (eq_append_of_word? hword).symm (h r.1)

end Text

namespace Turtle

/-! ## Starts of strings -/

/-- The rests of a text that start with the opening quote of a string: a quote character outside
comments, references and other strings. -/
def stringStarts (s : List Char) : List (List Char) :=
  match s with
  | [] => []
  | c :: rest =>
    if c = '#' then
      have := length_dropWhile_le (· != '\n') rest
      stringStarts (rest.dropWhile (· != '\n'))
    else if startsQuoted (c :: rest) then
      (c :: rest) ::
        match string? (c :: rest) with
        | some (_, r) =>
          have := Nat.le_of_lt_succ r.2
          stringStarts r.1
        | none => []
    else
      match reference? (c :: rest) with
      | some (_, r) =>
        have := Nat.le_of_lt_succ r.2
        stringStarts r.1
      | none => stringStarts rest
termination_by s.length

/-- Neither a comment, a string nor a reference starts with the character. -/
def isOrdinary (c : Char) : Bool := c != '#' && c != '"' && c != '\x27' && c != '<'

theorem stringStarts_cons {c : Char} (hc : isOrdinary c = true) (rest : List Char) :
    stringStarts (c :: rest) = stringStarts rest := by
  have hmarks : ((c ≠ '#' ∧ c ≠ '"') ∧ c ≠ '\x27') ∧ c ≠ '<' := by simpa [isOrdinary] using hc
  obtain ⟨⟨⟨hcomment, hdouble⟩, hsingle⟩, hreference⟩ := hmarks
  rw [stringStarts, if_neg hcomment, if_neg (by simp [startsQuoted, hdouble, hsingle]),
    reference?_of_head (by simpa using hreference)]

theorem stringStarts_append {word : List Char} (hword : word.all isOrdinary = true)
    (rest : List Char) : stringStarts (word ++ rest) = stringStarts rest := by
  induction word with
  | nil => rfl
  | cons c word ih =>
    obtain ⟨hc, hword⟩ := Bool.and_eq_true_iff.mp hword
    rw [List.cons_append, stringStarts_cons hc, ih hword]

theorem stringStarts_comment (rest : List Char) :
    stringStarts ('#' :: rest) = stringStarts (rest.dropWhile (· != '\n')) := by
  rw [stringStarts, if_pos rfl]

/-- The second text is an end of the first, and strings start in it only where they start in the
first. -/
structure Follows (s r : List Char) : Prop where
  suffix : r <:+ s
  starts : stringStarts r ⊆ stringStarts s

namespace Follows

variable {s r q : List Char}

theorem trans (h : Follows s r) (h' : Follows r q) : Follows s q :=
  ⟨h'.suffix.trans h.suffix, List.Subset.trans h'.starts h.starts⟩

/-- A word of ordinary characters may be left out. -/
theorem append {word : List Char} (hword : word.all isOrdinary = true) (rest : List Char) :
    Follows (word ++ rest) rest :=
  ⟨List.suffix_append word rest, by rw [stringStarts_append hword]; exact List.Subset.refl _⟩

theorem cons {c : Char} (hc : isOrdinary c = true) (rest : List Char) : Follows (c :: rest) rest :=
  append (show [c].all isOrdinary = true by rw [List.all_cons, hc]; rfl) rest

theorem of_prefix {word : List Char} (h : word <+: s) (hword : word.all isOrdinary = true) :
    Follows s (s.drop word.length) := by
  have hfollows := append hword (s.drop word.length)
  rwa [List.prefix_iff_eq_append.mp h] at hfollows

theorem dropWhile {p : Char → Bool} (hp : ∀ c, p c = true → isOrdinary c = true) (s : List Char) :
    Follows s (s.dropWhile p) := by
  have h : Follows (s.takeWhile p ++ s.dropWhile p) (s.dropWhile p) :=
    append (List.all_eq_true.mpr fun c hc => hp c (List.mem_takeWhile_imp hc)) _
  rwa [List.takeWhile_append_dropWhile] at h

theorem mark {m : Char} {r : Shorter s} (hm : isOrdinary m = true) (h : mark? m s = some r) :
    Follows s r.1 := by
  have hfollows := cons hm r.1
  rwa [← eq_cons_of_mark? h] at hfollows

theorem word {w : List Char} {r : Shorter s} (hw : w.all isOrdinary = true)
    (h : word? w s = some r) : Follows s r.1 := by
  have hfollows := append hw r.1
  rwa [← eq_append_of_word? h] at hfollows

theorem run {p : Char → Bool} (hp : ∀ c, p c = true → isOrdinary c = true) {name : List Char}
    {r : Shorter s} (h : run? p s = some (name, r)) : Follows s r.1 := by
  cases s with
  | nil => cases h
  | cons c rest =>
    rw [run?] at h
    split at h
    · rename_i hc
      obtain ⟨-, rfl⟩ := Prod.mk.inj (Option.some.inj h)
      exact (cons (hp c hc) rest).trans (dropWhile hp rest)
    · cases h

end Follows

/-! ## Classes of ordinary characters -/

/-- A class has ordinary characters only when it has none of the four that are not. -/
theorem isOrdinary_of_class {p : Char → Bool} (hp : ['#', '"', '\x27', '<'].any p = false)
    (c : Char) (hc : p c = true) : isOrdinary c = true := by
  have hne : ∀ m ∈ ['#', '"', '\x27', '<'], c ≠ m := by
    rintro m hm rfl
    rw [List.any_eq_true.mpr ⟨c, hm, hc⟩] at hp
    cases hp
  simp only [isOrdinary, Bool.and_eq_true, bne_iff_ne]
  exact ⟨⟨⟨hne _ (by simp), hne _ (by simp)⟩, hne _ (by simp)⟩, hne _ (by simp)⟩

theorem isOrdinary_of_isBlank : ∀ c, isBlank c = true → isOrdinary c = true :=
  isOrdinary_of_class (by decide)

theorem isOrdinary_of_isNameChar : ∀ c, isNameChar c = true → isOrdinary c = true :=
  isOrdinary_of_class (by decide)

theorem isOrdinary_of_isLocalChar : ∀ c, isLocalChar c = true → isOrdinary c = true :=
  isOrdinary_of_class (by decide)

theorem isOrdinary_of_isDigit : ∀ c, Char.isDigit c = true → isOrdinary c = true :=
  isOrdinary_of_class (by decide)

theorem isOrdinary_of_isTagChar : ∀ c, isTagChar c = true → isOrdinary c = true :=
  isOrdinary_of_class (by decide)

/-! ## Gaps -/

/-- A gap is left out as a whole; inside a comment no string starts before the line ends. -/
theorem skipGap_suffix {isGap : Char → Bool} (hgap : ∀ c, isGap c = true → isOrdinary c = true)
    (inComment : Bool) (s : List Char) :
    skipGap isGap inComment s <:+ s ∧
      stringStarts (skipGap isGap inComment s) ⊆
        stringStarts (if inComment then s.dropWhile (· != '\n') else s) := by
  induction s generalizing inComment with
  | nil => cases inComment <;> exact ⟨List.suffix_rfl, List.Subset.refl _⟩
  | cons c rest ih =>
    cases inComment with
    | true =>
      obtain ⟨hsuffix, hstarts⟩ := ih (c != '\n')
      refine ⟨hsuffix.trans (List.suffix_cons c rest), ?_⟩
      rw [skipGap, if_pos rfl, if_pos rfl]
      by_cases hline : c = '\n'
      · subst hline
        have hend : ('\n' :: rest).dropWhile (· != '\n') = '\n' :: rest := rfl
        rw [hend, stringStarts_cons (by decide)]
        exact hstarts
      · have hmore : (c != '\n') = true := by simpa using hline
        have hdrop : (c :: rest).dropWhile (· != '\n') = rest.dropWhile (· != '\n') :=
          List.dropWhile_cons_of_pos hmore
        rw [hmore] at hstarts ⊢
        rw [hdrop]
        exact hstarts
    | false =>
      rw [skipGap, if_neg Bool.false_ne_true, if_neg Bool.false_ne_true]
      split
      · rename_i hc
        obtain ⟨hsuffix, hstarts⟩ := ih false
        rw [stringStarts_cons (hgap c hc)]
        exact ⟨hsuffix.trans (List.suffix_cons c rest), hstarts⟩
      · split
        · rename_i hcomment
          obtain ⟨hsuffix, hstarts⟩ := ih true
          rw [hcomment, stringStarts_comment]
          exact ⟨hsuffix.trans (List.suffix_cons '#' rest), hstarts⟩
        · exact ⟨List.suffix_rfl, List.Subset.refl _⟩

theorem follows_skip (s : List Char) : Follows s (skip s) :=
  ⟨(skipGap_suffix isOrdinary_of_isBlank false s).1,
    (skipGap_suffix isOrdinary_of_isBlank false s).2⟩

theorem follows_skipSemicolons (s : List Char) : Follows s (skipSemicolons s) := by
  have hgap : ∀ c, (isBlank c || c == ';') = true → isOrdinary c = true :=
    isOrdinary_of_class (by decide)
  exact ⟨(skipGap_suffix hgap false s).1, (skipGap_suffix hgap false s).2⟩

/-! ## Names and numbers -/

section Readers

variable {s : List Char}

theorem prefix_trimDots (name : List Char) : trimDots name <+: name := by
  have h : name.reverse.dropWhile (· == '.') <:+ name.reverse := List.dropWhile_suffix _
  rw [trimDots]
  simpa using List.reverse_prefix.mpr h

theorem follows_prefixedName? {name : List Char × List Char} {r : Shorter s}
    (h : prefixedName? s = some (name, r)) : Follows s r.1 := by
  rw [prefixedName?] at h
  split at h
  · rename_i q hq
    obtain ⟨-, rfl⟩ := Prod.mk.inj (Option.some.inj h)
    have hcolon := (Follows.dropWhile isOrdinary_of_isNameChar s).trans
      (Follows.mark (by decide) hq)
    have hpart : trimDots (q.1.takeWhile isLocalChar) <+: q.1 :=
      (prefix_trimDots _).trans (List.takeWhile_prefix _)
    have hlocal : (trimDots (q.1.takeWhile isLocalChar)).all isOrdinary = true := by
      apply List.all_eq_true.mpr
      intro c hc
      exact isOrdinary_of_isLocalChar c (List.mem_takeWhile_imp ((prefix_trimDots _).subset hc))
    exact hcolon.trans (Follows.of_prefix hpart hlocal)
  · cases h

theorem follows_label? {name : List Char} {r : Shorter s} (h : label? s = some (name, r)) :
    Follows s r.1 := by
  rw [label?] at h
  split at h
  · rename_i q hq
    obtain ⟨⟨run, p⟩, hrun, hr⟩ := Option.map_eq_some_iff.mp h
    obtain ⟨-, rfl⟩ := Prod.mk.inj hr
    exact (Follows.word (by decide) hq).trans (Follows.run isOrdinary_of_isNameChar hrun)
  · cases h

theorem follows_typeShorthand? {r : Shorter s} (h : typeShorthand? s = some r) :
    Follows s r.1 := by
  rw [typeShorthand?.eq_def] at h
  split at h
  · rename_i rest
    split at h
    · obtain rfl := Option.some.inj h
      exact Follows.cons (by decide) rest
    · cases h
  · cases h

theorem follows_fraction? {digits : List Char} {r : Shorter s}
    (h : fraction? s = some (digits, r)) : Follows s r.1 := by
  rw [fraction?] at h
  split at h
  · rename_i q hq
    obtain ⟨⟨run, p⟩, hrun, hr⟩ := Option.map_eq_some_iff.mp h
    obtain ⟨-, rfl⟩ := Prod.mk.inj hr
    exact (Follows.mark (by decide) hq).trans (Follows.run isOrdinary_of_isDigit hrun)
  · cases h

theorem follows_exponent? {digits : List Char} {r : Shorter s}
    (h : exponent? s = some (digits, r)) : Follows s r.1 := by
  rw [exponent?.eq_def] at h
  split at h
  · cases h
  · rename_i e rest
    split at h
    · rename_i he
      have hletter : isOrdinary e = true := by rcases he with rfl | rfl <;> decide
      split at h
      · cases h
      · rename_i c after
        split at h
        · rename_i hc
          have hsign : isOrdinary c = true := by rcases hc with rfl | rfl <;> decide
          obtain ⟨⟨run, p⟩, hrun, hr⟩ := Option.map_eq_some_iff.mp h
          obtain ⟨-, rfl⟩ := Prod.mk.inj hr
          exact (Follows.cons hletter _).trans
            ((Follows.cons hsign _).trans (Follows.run isOrdinary_of_isDigit hrun))
        · obtain ⟨⟨run, p⟩, hrun, hr⟩ := Option.map_eq_some_iff.mp h
          obtain ⟨-, rfl⟩ := Prod.mk.inj hr
          exact (Follows.cons hletter _).trans (Follows.run isOrdinary_of_isDigit hrun)
    · cases h

theorem follows_unsigned? {number : List Char × Iri} {r : Shorter s}
    (h : unsigned? s = some (number, r)) : Follows s r.1 := by
  rw [unsigned?] at h
  split at h
  · cases h
  · rename_i digits q hq
    have hdigits := Follows.run isOrdinary_of_isDigit hq
    split at h
    · split at h
      · obtain ⟨-, rfl⟩ := Prod.mk.inj (Option.some.inj h)
        exact hdigits
      · rename_i power p hp
        obtain ⟨-, rfl⟩ := Prod.mk.inj (Option.some.inj h)
        exact hdigits.trans (follows_exponent? hp)
    · rename_i places q' hplaces
      have hfraction := hdigits.trans (follows_fraction? hplaces)
      split at h
      · obtain ⟨-, rfl⟩ := Prod.mk.inj (Option.some.inj h)
        exact hfraction
      · rename_i power p hp
        obtain ⟨-, rfl⟩ := Prod.mk.inj (Option.some.inj h)
        exact hfraction.trans (follows_exponent? hp)

theorem follows_number? {l : Literal} {r : Shorter s} (h : number? s = some (l, r)) :
    Follows s r.1 := by
  rw [number?.eq_def] at h
  split at h
  · rename_i rest
    obtain ⟨⟨⟨digits, datatype⟩, q⟩, hq, hr⟩ := Option.map_eq_some_iff.mp h
    obtain ⟨-, rfl⟩ := Prod.mk.inj hr
    exact (Follows.cons (by decide) rest).trans (follows_unsigned? hq)
  · rename_i rest
    obtain ⟨⟨⟨digits, datatype⟩, q⟩, hq, hr⟩ := Option.map_eq_some_iff.mp h
    obtain ⟨-, rfl⟩ := Prod.mk.inj hr
    exact (Follows.cons (by decide) rest).trans (follows_unsigned? hq)
  · obtain ⟨⟨⟨digits, datatype⟩, q⟩, hq, hr⟩ := Option.map_eq_some_iff.mp h
    obtain ⟨-, rfl⟩ := Prod.mk.inj hr
    exact follows_unsigned? hq

theorem follows_truthValue? {l : Literal} {r : Shorter s} (h : truthValue? s = some (l, r)) :
    Follows s r.1 := by
  rw [truthValue?] at h
  split at h
  · rename_i q hq
    split at h
    · obtain ⟨-, rfl⟩ := Prod.mk.inj (Option.some.inj h)
      exact Follows.word (by decide) hq
    · cases h
  · split at h
    · rename_i q hq
      split at h
      · obtain ⟨-, rfl⟩ := Prod.mk.inj (Option.some.inj h)
        exact Follows.word (by decide) hq
      · cases h
    · cases h

/-! ## References and strings -/

theorem follows_reference? {text : List Char} {r : Shorter s} (h : reference? s = some (text, r)) :
    Follows s r.1 := by
  have hstarts : ∀ rest, s = '<' :: rest → stringStarts s = stringStarts r.1 := by
    rintro rest rfl
    rw [stringStarts, if_neg (by decide), if_neg (by simp [startsQuoted]), h]
  rw [reference?.eq_def] at h
  split at h
  · rename_i rest
    split at h
    · rename_i q hq
      obtain ⟨-, rfl⟩ := Prod.mk.inj (Option.some.inj h)
      refine ⟨?_, ?_⟩
      · exact ((Follows.mark (by decide) hq).suffix.trans (List.dropWhile_suffix _)).trans
          (List.suffix_cons '<' rest)
      · rw [hstarts rest rfl]
        exact List.Subset.refl _
    · cases h
  · cases h

theorem suffix_shortBody? {quote : Char} {body : List Char} {r : Shorter s}
    (h : shortBody? quote s = some (body, r)) : r.1 <:+ s := by
  induction s using shortBody?.induct quote generalizing body with
  | case1 => cases h
  | case2 rest =>
    rw [shortBody?_quote] at h
    obtain ⟨-, rfl⟩ := Prod.mk.inj (Option.some.inj h)
    exact List.suffix_cons quote rest
  | case3 rest hquote =>
    cases rest with
    | nil => simp [shortBody?, hquote] at h
    | cons d rest => simp [shortBody?, hquote] at h
  | case4 hquote _ => simp [shortBody?, hquote] at h
  | case5 d rest hquote _ ih =>
    rw [shortBody?_escaped hquote] at h
    obtain ⟨⟨more, q⟩, hq, hr⟩ := Option.map_eq_some_iff.mp h
    obtain ⟨-, rfl⟩ := Prod.mk.inj hr
    exact (ih hq).trans ((List.suffix_cons d rest).trans (List.suffix_cons '\\' _))
  | case6 c rest hquote hline hbackslash ih =>
    rw [shortBody?_cons hquote hbackslash hline] at h
    obtain ⟨⟨more, q⟩, hq, hr⟩ := Option.map_eq_some_iff.mp h
    obtain ⟨-, rfl⟩ := Prod.mk.inj hr
    exact (ih hq).trans (List.suffix_cons c rest)

theorem suffix_shortString? {quote : Char} {body : List Char} {r : Shorter s}
    (h : shortString? quote s = some (body, r)) : r.1 <:+ s := by
  rw [shortString?] at h
  split at h
  · rename_i q hq
    obtain ⟨⟨more, p⟩, hp, hr⟩ := Option.map_eq_some_iff.mp h
    obtain ⟨-, rfl⟩ := Prod.mk.inj hr
    exact (suffix_shortBody? hp).trans ⟨[quote], (eq_cons_of_mark? hq).symm⟩
  · cases h

theorem suffix_longString? {quote : Char} {body : List Char} {r : Shorter s}
    (h : longString? quote s = some (body, r)) : r.1 <:+ s := by
  rw [longString?] at h
  split at h
  · rename_i q hq
    split at h
    · rename_i before after hbreak
      obtain ⟨-, rfl⟩ := Prod.mk.inj (Option.some.inj h)
      have hafter : after <:+ q.1 := ⟨before, append_of_breakBefore hbreak⟩
      exact ((List.drop_suffix 3 after).trans hafter).trans ⟨_, (eq_append_of_word? hq).symm⟩
    · cases h
  · cases h

theorem suffix_string? {value : List Char} {r : Shorter s} (h : string? s = some (value, r)) :
    r.1 <:+ s := by
  rw [string?] at h
  obtain ⟨⟨body, q⟩, hq, hr⟩ := Option.map_eq_some_iff.mp h
  obtain ⟨-, rfl⟩ := Prod.mk.inj hr
  rcases Option.or_eq_some_iff.mp hq with hlong | ⟨-, hshort⟩
  · rcases Option.or_eq_some_iff.mp hlong with hdouble | ⟨-, hsingle⟩
    · exact suffix_longString? hdouble
    · exact suffix_longString? hsingle
  · rcases Option.or_eq_some_iff.mp hshort with hdouble | ⟨-, hsingle⟩
    · exact suffix_shortString? hdouble
    · exact suffix_shortString? hsingle

/-- The strings of a text that starts with one are this one and those behind it. -/
theorem stringStarts_of_string? {value : List Char} {r : Shorter s} (hquote : startsQuoted s = true)
    (h : string? s = some (value, r)) : stringStarts s = s :: stringStarts r.1 := by
  cases s with
  | nil => cases hquote
  | cons c rest =>
    have hcomment : c ≠ '#' := by
      rintro rfl
      cases hquote
    rw [stringStarts, if_neg hcomment, if_pos hquote, h]

theorem follows_string? {value : List Char} {r : Shorter s} (hquote : startsQuoted s = true)
    (h : string? s = some (value, r)) : Follows s r.1 := by
  refine ⟨suffix_string? h, ?_⟩
  rw [stringStarts_of_string? hquote h]
  exact List.subset_cons_self s _

end Readers

/-! ## Results -/

/-- A result lies within its text: what is left follows the text, and a place at which reading halts
is an end of it. -/
structure Within {s : List Char} {α : Type} (result : Except Halt (α × Shorter s)) : Prop where
  follows : ∀ v r, result = .ok (v, r) → Follows s r.1
  suffix : ∀ rest cause, result = .error (.before rest cause) → rest <:+ s

namespace Within

variable {s t : List Char} {α β : Type}

theorem ok (v : α) {r : Shorter s} (h : Follows s r.1) : Within (.ok (v, r)) where
  follows := by
    intro v' r' hresult
    obtain ⟨-, rfl⟩ := Prod.mk.inj (Except.ok.inj hresult)
    exact h
  suffix := by
    intro rest cause hresult
    cases hresult

theorem before {rest : List Char} (h : rest <:+ s) (cause : Cause) :
    Within (.error (.before rest cause) : Except Halt (α × Shorter s)) where
  follows := by
    intro v r hresult
    cases hresult
  suffix := by
    intro rest' cause' hresult
    obtain ⟨rfl, -⟩ := Halt.before.inj (Except.error.inj hresult)
    exact h

theorem undefinedPrefix (name : String) :
    Within (.error (.undefinedPrefix name) : Except Halt (α × Shorter s)) where
  follows := by
    intro v r hresult
    cases hresult
  suffix := by
    intro rest cause hresult
    cases hresult

/-- What halts the reading of a part halts the whole. -/
theorem halt {result : Except Halt (α × Shorter t)} {halt : Halt} (h : Within result)
    (hresult : result = .error halt) (ht : t <:+ s) :
    Within (.error halt : Except Halt (β × Shorter s)) := by
  cases halt with
  | before rest cause => exact before ((h.suffix rest cause hresult).trans ht) cause
  | undefinedPrefix name => exact undefinedPrefix name

theorem map {result : Except Halt (α × Shorter s)} (h : Within result) (f : α → β) :
    Within (result.map fun answer => (f answer.1, answer.2)) := by
  cases result with
  | error halt => exact h.halt rfl List.suffix_rfl
  | ok answer => exact .ok _ (h.follows _ answer.2 rfl)

end Within

section Results

variable {s : List Char} {α : Type}

theorem within_expect {m : Char} (hm : isOrdinary m = true) (cause : Cause) {r : Shorter s}
    (hr : Follows s r.1) : Within (expect m cause r) := by
  rw [expect]
  split
  · rename_i q hq
    exact .ok () (hr.trans (.mark hm hq))
  · exact .before hr.suffix cause

theorem follows_readReference? {reference : Reference} {r : Shorter s}
    (h : readReference? s = some (reference, r)) : Follows s r.1 := by
  rw [readReference?] at h
  split at h
  · rename_i text q hq
    obtain ⟨-, rfl⟩ := Prod.mk.inj (Option.some.inj h)
    exact follows_reference? hq
  · obtain ⟨⟨name, q⟩, hq, hr⟩ := Option.map_eq_some_iff.mp h
    obtain ⟨-, rfl⟩ := Prod.mk.inj hr
    exact follows_prefixedName? hq

theorem within_readLiteralType (value : List Char) {r : Shorter s} (hr : Follows s r.1) :
    Within (readLiteralType value r) := by
  rw [readLiteralType]
  split
  · rename_i q hq
    have hmark := hr.trans (.mark (by decide) hq)
    split
    · rename_i tag q' htag
      exact .ok _ (hmark.trans (.run isOrdinary_of_isTagChar htag))
    · exact .before hmark.suffix _
  · split
    · rename_i q hq
      have hword := hr.trans (.word (by decide) hq)
      split
      · rename_i datatype q' hdatatype
        exact .ok _ (hword.trans (follows_readReference? hdatatype))
      · exact .before hword.suffix _
    · exact .ok _ hr

theorem within_readAtom (s : List Char) : Within (readAtom s) := by
  rw [readAtom]
  split
  · rename_i text r hr
    exact .ok _ (follows_reference? hr)
  · split
    · rename_i name r hr
      exact .ok _ (follows_label? hr)
    · split
      · rename_i hquote
        split
        · rename_i value r hr
          exact within_readLiteralType value (follows_string? hquote hr)
        · exact .before List.suffix_rfl _
      · split
        · rename_i l r hr
          rcases Option.or_eq_some_iff.mp hr with hnumber | ⟨-, htruth⟩
          · exact .ok _ (follows_number? hnumber)
          · exact .ok _ (follows_truthValue? htruth)
        · split
          · rename_i label local' r hr
            exact .ok _ (follows_prefixedName? hr)
          · exact .before List.suffix_rfl _

/-- Looking up a term fails only at a prefix. -/
theorem within_place {st st' : State} {atom : Atom} {halt : Halt}
    (h : st.place atom = (st', .error halt)) :
    Within (.error halt : Except Halt (α × Shorter s)) := by
  have hresolve : ∀ {β : Type} {reference : Reference} {f : Iri → β},
      (st.resolve reference).map f = .error halt → ∃ name, halt = .undefinedPrefix name := by
    intro β reference f hmap
    cases reference with
    | bracketed text => cases hmap
    | named label suffix =>
      simp only [State.resolve, State.resolveName] at hmap
      split at hmap
      · cases hmap
      · exact ⟨_, (Except.error.inj hmap).symm⟩
  have hname : ∃ name, halt = .undefinedPrefix name := by
    cases atom with
    | reference r => exact hresolve (Prod.mk.inj h).2
    | label name => cases (Prod.mk.inj h).2
    | literal l => cases (Prod.mk.inj h).2
    | typed value datatype => exact hresolve (Prod.mk.inj h).2
  obtain ⟨name, rfl⟩ := hname
  exact .undefinedPrefix name

end Results

/-! ## The grammar -/

mutual

theorem within_readTerm (st : State) (s : List Char) : Within (readTerm st s).result := by
  rw [readTerm]
  split
  · rename_i r hbracket
    have hr := (Follows.mark (by decide) hbracket).trans (follows_skip r.1)
    have hlt : (skip r.1).length < s.length := r.skip.2
    dsimp only
    split
    · rename_i q hq
      exact .ok _ (hr.trans (.mark (by decide) hq))
    · have hinside := within_readPredicates st.freshBlank.1 st.freshBlank.2 (skip r.1)
      split
      · rename_i st' halt heq
        exact hinside.halt (congrArg Reading.result heq) hr.suffix
      · rename_i st' v q heq
        have hq := hr.trans (hinside.follows _ q (congrArg Reading.result heq))
        exact (within_expect (m := ']') (r := (r.skip.trans q).skip) (by decide) .closingBracket
          (hq.trans (follows_skip q.1))).map fun _ => st.freshBlank.2
  · split
    · rename_i r hparen
      have hr := (Follows.mark (by decide) hparen).trans (follows_skip r.1)
      have hlt : (skip r.1).length < s.length := r.skip.2
      have hinside := within_readItems st (skip r.1)
      dsimp only
      split
      · rename_i st' halt heq
        exact hinside.halt (congrArg Reading.result heq) hr.suffix
      · rename_i st' items q heq
        exact .ok _ (hr.trans (hinside.follows _ q (congrArg Reading.result heq)))
    · have hatom := within_readAtom s
      split
      · rename_i halt heq
        exact hatom.halt heq List.suffix_rfl
      · rename_i atom r heq
        split
        · rename_i st' halt hplace
          exact within_place hplace
        · exact .ok _ (hatom.follows _ r heq)
termination_by (s.length, 0)

theorem within_readItems (st : State) (s : List Char) : Within (readItems st s).result := by
  rw [readItems]
  split
  · rename_i r hparen
    exact .ok _ (.mark (by decide) hparen)
  · have hterm := within_readTerm st s
    split
    · rename_i st' halt heq
      exact hterm.halt (congrArg Reading.result heq) List.suffix_rfl
    · rename_i st' item r heq
      have hr := (hterm.follows _ r (congrArg Reading.result heq)).trans (follows_skip r.1)
      have hlt : (skip r.1).length < s.length := r.skip.2
      have hitems := within_readItems st' (skip r.1)
      dsimp only
      split
      · rename_i st'' halt heq'
        exact hitems.halt (congrArg Reading.result heq') hr.suffix
      · rename_i st'' items q heq'
        exact .ok _ (hr.trans (hitems.follows _ q (congrArg Reading.result heq')))
termination_by (s.length, 1)

theorem within_readPredicate (st : State) (s : List Char) :
    Within (readPredicate st s).result := by
  rw [readPredicate]
  split
  · rename_i r hr
    exact .ok _ (follows_typeShorthand? hr)
  · have hterm := within_readTerm st s
    split
    · rename_i st' halt heq
      exact hterm.halt (congrArg Reading.result heq) List.suffix_rfl
    · rename_i st' term r heq
      split
      · exact .ok _ (hterm.follows _ r (congrArg Reading.result heq))
      · exact .before List.suffix_rfl _
termination_by (s.length, 1)

theorem within_readObjects (st : State) (subject predicate : Term) (s : List Char) :
    Within (readObjects st subject predicate s).result := by
  rw [readObjects]
  have hterm := within_readTerm st s
  split
  · rename_i st' halt heq
    exact hterm.halt (congrArg Reading.result heq) List.suffix_rfl
  · rename_i st' object r heq
    have hr := (hterm.follows _ r (congrArg Reading.result heq)).trans (follows_skip r.1)
    dsimp only
    split
    · exact .ok _ hr
    · rename_i q hcomma
      have hq := (hr.trans (.mark (by decide) hcomma)).trans (follows_skip q.1)
      have hlt : (skip q.1).length < s.length := (r.skip.trans q).skip.2
      have hobjects := within_readObjects (st'.addTriple subject predicate object) subject predicate
        (skip q.1)
      split
      · rename_i st'' halt heq'
        exact hobjects.halt (congrArg Reading.result heq') hq.suffix
      · rename_i st'' v p heq'
        exact .ok _ (hq.trans (hobjects.follows _ p (congrArg Reading.result heq')))
termination_by (s.length, 1)

theorem within_readPredicates (st : State) (subject : Term) (s : List Char) :
    Within (readPredicates st subject s).result := by
  rw [readPredicates]
  have hpredicate := within_readPredicate st s
  split
  · rename_i st' halt heq
    exact hpredicate.halt (congrArg Reading.result heq) List.suffix_rfl
  · rename_i st' predicate r heq
    have hr := (hpredicate.follows _ r (congrArg Reading.result heq)).trans (follows_skip r.1)
    have hlt : (skip r.1).length < s.length := r.skip.2
    have hobjects := within_readObjects st' subject predicate (skip r.1)
    dsimp only
    split
    · rename_i st'' halt heq'
      exact hobjects.halt (congrArg Reading.result heq') hr.suffix
    · rename_i st'' v q heq'
      have hq := (hr.trans (hobjects.follows _ q (congrArg Reading.result heq'))).trans
        (follows_skip q.1)
      split
      · exact .ok _ hq
      · rename_i p hsemicolon
        have hp := (hq.trans (.mark (by decide) hsemicolon)).trans (follows_skipSemicolons p.1)
        have hlt : (skipSemicolons p.1).length < s.length :=
          ((r.skip.trans q).skip.trans p).skipSemicolons.2
        have hmore := within_readPredicates st'' subject (skipSemicolons p.1)
        split
        · exact .ok _ hp
        · split
          · rename_i last halt heq''
            exact hmore.halt (congrArg Reading.result heq'') hp.suffix
          · rename_i last w z heq''
            exact .ok _ (hp.trans (hmore.follows _ z (congrArg Reading.result heq'')))
termination_by (s.length, 2)

end

/-! ## Directives and statements -/

section Entries

variable {s : List Char} (st : State)

theorem within_readPrefixDeclaration {r : Shorter s} (hr : Follows s r.1) :
    Within (readPrefixDeclaration st r).result := by
  have hname := (hr.trans (follows_skip r.1)).trans
    (.dropWhile isOrdinary_of_isNameChar (skip r.1))
  have hcolon := within_expect (m := ':') (r := ⟨(skip r.1).dropWhile isNameChar,
    Nat.lt_of_le_of_lt (length_dropWhile_le _ _) r.skip.2⟩) (by decide) .colonAfterName hname
  rw [readPrefixDeclaration]
  split
  · rename_i halt heq
    exact hcolon.halt heq List.suffix_rfl
  · rename_i v q heq
    have hq := (hcolon.follows _ q heq).trans (follows_skip q.1)
    dsimp only
    split
    · exact .before hq.suffix _
    · rename_i text p hreference
      exact .ok _ (hq.trans (follows_reference? hreference))

theorem within_readBaseDeclaration {r : Shorter s} (hr : Follows s r.1) :
    Within (readBaseDeclaration st r).result := by
  have hskip := hr.trans (follows_skip r.1)
  rw [readBaseDeclaration]
  split
  · exact .before hskip.suffix _
  · rename_i text q hreference
    exact .ok _ (hskip.trans (follows_reference? hreference))

/-- A declaration and the dot after it. -/
theorem Within.dotted {declaration : Reading s Unit} (h : Within declaration.result) :
    Within (match declaration with
      | ⟨st, .error halt⟩ => (⟨st, .error halt⟩ : Reading s Unit)
      | ⟨st, .ok (_, r)⟩ => ⟨st, expect '.' .dotAfterDirective r.skip⟩).result := by
  split
  · rename_i st' halt
    exact h.halt rfl List.suffix_rfl
  · rename_i st' v r
    exact within_expect (by decide) _ ((h.follows _ r rfl).trans (follows_skip r.1))

theorem within_readDirective (s : List Char) : Within (readDirective st s).result := by
  rw [readDirective]
  apply Within.dotted
  split
  · rename_i r hword
    exact within_readPrefixDeclaration st (.word (by decide) hword)
  · split
    · rename_i r hword
      exact within_readBaseDeclaration st (.word (by decide) hword)
    · exact .before List.suffix_rfl _

theorem within_readBareDirective (s : List Char) : Within (readBareDirective st s).result := by
  rw [readBareDirective]
  split
  · rename_i r hword
    exact within_readPrefixDeclaration st (.word (by decide) hword)
  · split
    · rename_i r hword
      exact within_readBaseDeclaration st (.word (by decide) hword)
    · exact .before List.suffix_rfl _

theorem within_readStatement (s : List Char) : Within (readStatement st s).result := by
  rw [readStatement]
  have hterm := within_readTerm st s
  split
  · rename_i st' halt heq
    exact hterm.halt (congrArg Reading.result heq) List.suffix_rfl
  · rename_i st' subject r heq
    have hr := (hterm.follows _ r (congrArg Reading.result heq)).trans (follows_skip r.1)
    split
    · split
      · exact within_expect (by decide) _ hr
      · have hpredicates := within_readPredicates st' subject (skip r.1)
        split
        · rename_i st'' halt heq'
          exact hpredicates.halt (congrArg Reading.result heq') hr.suffix
        · rename_i st'' v q heq'
          have hq := hr.trans (hpredicates.follows _ q (congrArg Reading.result heq'))
          exact within_expect (by decide) _ (hq.trans (follows_skip q.1))
    · exact .before List.suffix_rfl _

theorem within_readEntry (s : List Char) : Within (readEntry st s).result := by
  rw [readEntry]
  split
  · exact within_readDirective st s
  · split
    · exact within_readBareDirective st s
    · exact within_readStatement st s

end Entries

/-! ## Documents -/

section Documents

variable {st st' : State} {s text : List Char}

theorem readEntries_of_skip_eq_nil (h : skip s = []) (st : State) :
    readEntries st s = (st, .ok ()) := by
  rw [readEntries]
  split
  · rfl
  · rename_i hc _
    cases h.symm.trans hc

theorem readEntries_of_readEntry (h : skip s = text) (hne : text ≠ []) {r : Shorter text}
    (hentry : readEntry st text = ⟨st', .ok ((), r)⟩) : readEntries st s = readEntries st' r.1 := by
  rw [readEntries]
  split
  · rename_i hc _
    exact absurd (h.symm.trans hc) hne
  · rename_i hc _
    obtain rfl := h.symm.trans hc
    rw [hentry]

theorem readEntries_of_halt (h : skip s = text) (hne : text ≠ []) {halt : Halt}
    (hentry : readEntry st text = ⟨st', .error halt⟩) :
    readEntries st s = (st', .error halt) := by
  rw [readEntries]
  split
  · rename_i hc _
    exact absurd (h.symm.trans hc) hne
  · rename_i hc _
    obtain rfl := h.symm.trans hc
    rw [hentry]

/-- Reading a document halts at an end of its text. -/
theorem suffix_readEntries {rest : List Char} {cause : Cause}
    (h : readEntries st s = (st', .error (.before rest cause))) : rest <:+ s := by
  induction st, s using readEntries.induct with
  | case1 st s _ hskip =>
    rw [readEntries_of_skip_eq_nil hskip] at h
    cases h
  | case2 st s c text _ hskip st'' halt hentry =>
    rw [readEntries_of_halt hskip (List.cons_ne_nil c text) hentry] at h
    obtain ⟨-, rfl⟩ : st'' = st' ∧ halt = .before rest cause := by simpa using h
    have hrest := (within_readEntry st (c :: text)).suffix rest cause
      (congrArg Reading.result hentry)
    exact hrest.trans (hskip ▸ (follows_skip s).suffix)
  | case3 st s c text _ hskip st'' v r hentry _ ih =>
    rw [readEntries_of_readEntry hskip (List.cons_ne_nil c text) hentry] at h
    have hr := (within_readEntry st (c :: text)).follows _ r (congrArg Reading.result hentry)
    exact ((ih h).trans hr.suffix).trans (hskip ▸ (follows_skip s).suffix)

end Documents

end Turtle

end GraphConformance
