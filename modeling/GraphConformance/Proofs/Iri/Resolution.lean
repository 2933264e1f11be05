import GraphConformance.Iri
import Mathlib.Data.List.Infix
import Mathlib.Data.List.TakeWhile

/-!
# What resolving a reference keeps

A base with a scheme and an authority is taken apart (`SitedBase`), and for every reference without
a scheme of its own it is said whether the IRI that it resolves to still starts with the scheme and
the authority of the base (`startsAt_resolve_iff`). A reference that starts with `#` or `/` keeps
them. Any other is put behind the last `#` or `/` of the base, and if the base has neither behind
its authority, that is the end of `://`: the authority is lost. A reference that holds `://`
somewhere is taken as it is, with a scheme or without (`isAbsolute_iff`).
-/

set_option autoImplicit false

namespace GraphConformance

/-! ## Cutting a text -/

namespace Text

variable {pattern s t before after : List Char} {mark : Char}

/-- A text is cut before a pattern when it holds the pattern. -/
theorem isSome_breakBefore_iff : (breakBefore pattern s).isSome = true ↔ pattern <:+: s := by
  induction s with
  | nil =>
    rw [breakBefore, List.infix_nil]
    cases pattern with
    | nil => simp
    | cons c pattern => simp
  | cons c s ih =>
    rw [breakBefore, List.infix_cons_iff]
    split
    · rename_i hstart
      simp [List.isPrefixOf_iff_prefix.mp hstart]
    · rename_i hstart
      rw [Option.isSome_map, ih]
      simp [mt List.isPrefixOf_iff_prefix.mpr hstart]

/-- A pattern is found behind a text that lacks its first character. -/
theorem breakBefore_append {c : Char} (hs : c ∉ s) :
    breakBefore (c :: pattern) (s ++ c :: pattern ++ t) = some (s, c :: pattern ++ t) := by
  induction s with
  | nil =>
    rw [List.nil_append, List.cons_append, breakBefore, if_pos]
    rw [List.isPrefixOf_iff_prefix, ← List.cons_append]
    exact List.prefix_append _ _
  | cons d s ih =>
    obtain ⟨hd, hs⟩ := not_or.mp (mt List.mem_cons.mpr hs)
    have hstart : (c :: pattern).isPrefixOf (d :: (s ++ c :: pattern ++ t)) = false := by
      simp [List.isPrefixOf, hd]
    rw [List.cons_append, List.cons_append, breakBefore, hstart, ih hs]
    rfl

theorem splitAfterLast_eq_none_iff : splitAfterLast mark s = none ↔ mark ∉ s := by
  induction s with
  | nil => simp [splitAfterLast]
  | cons c s ih =>
    rw [splitAfterLast, List.mem_cons, not_or, ← ih]
    cases splitAfterLast mark s with
    | some parts => simp
    | none => simp [eq_comm]

/-- What stands in front of the text that holds the last mark stays in front. -/
theorem splitAfterLast_append (h : splitAfterLast mark t = some (before, after)) :
    splitAfterLast mark (s ++ t) = some (s ++ before, after) := by
  induction s with
  | nil => exact h
  | cons c s ih => rw [List.cons_append, splitAfterLast, ih]; rfl

theorem splitAfterLast_cons_self (h : mark ∉ t) :
    splitAfterLast mark (mark :: t) = some ([mark], t) := by
  rw [splitAfterLast, splitAfterLast_eq_none_iff.mpr h]
  exact if_pos rfl

theorem ne_nil_of_splitAfterLast (h : splitAfterLast mark s = some (before, after)) :
    before ≠ [] := by
  cases s with
  | nil => cases h
  | cons c s =>
    rw [splitAfterLast] at h
    split at h
    · obtain ⟨rfl, -⟩ := Prod.mk.inj (Option.some.inj h)
      exact List.cons_ne_nil _ _
    · split at h
      · obtain ⟨rfl, -⟩ := Prod.mk.inj (Option.some.inj h)
        exact List.cons_ne_nil _ _
      · cases h

end Text

namespace Iri

open Text

/-! ## Schemes -/

/-- The characters of a scheme behind its first letter. -/
def isSchemeChar (c : Char) : Bool := c.isAlphanum || c == '+' || c == '-' || c == '.'

/-- A letter, and then letters, digits, `+`, `-` and `.`. -/
def IsScheme (scheme : List Char) : Prop :=
  scheme.head?.any Char.isAlpha = true ∧ scheme.all isSchemeChar = true

/-- The reference starts with a scheme and a colon. -/
def HasScheme (reference : List Char) : Prop :=
  IsScheme (reference.takeWhile isSchemeChar) ∧
    (reference.dropWhile isSchemeChar).head? = some ':'

instance (scheme : List Char) : Decidable (IsScheme scheme) :=
  inferInstanceAs (Decidable (_ ∧ _))

instance (reference : List Char) : Decidable (HasScheme reference) :=
  inferInstanceAs (Decidable (_ ∧ _))

theorem not_mem_of_isScheme {scheme : List Char} {c : Char} (h : IsScheme scheme)
    (hc : isSchemeChar c = false) : c ∉ scheme := by
  intro hmem
  rw [List.all_eq_true.mp h.2 c hmem] at hc
  cases hc

theorem hasScheme_iff {reference : List Char} :
    HasScheme reference ↔ ∃ scheme rest, IsScheme scheme ∧ reference = scheme ++ ':' :: rest := by
  constructor
  · rintro ⟨hscheme, hcolon⟩
    obtain ⟨rest, hrest⟩ := List.head?_eq_some_iff.mp hcolon
    exact ⟨_, rest, hscheme, by rw [← hrest, List.takeWhile_append_dropWhile]⟩
  · rintro ⟨scheme, rest, hscheme, rfl⟩
    have hall : ∀ c ∈ scheme, isSchemeChar c = true := List.all_eq_true.mp hscheme.2
    have htake : (scheme ++ ':' :: rest).takeWhile isSchemeChar = scheme := by
      rw [List.takeWhile_append_of_pos hall]
      simp [show isSchemeChar ':' = false by decide]
    have hdrop : (scheme ++ ':' :: rest).dropWhile isSchemeChar = ':' :: rest := by
      rw [List.dropWhile_append_of_pos hall]
      simp [show isSchemeChar ':' = false by decide]
    rw [HasScheme, htake, hdrop]
    exact ⟨hscheme, rfl⟩

/-! ## What is taken as it is -/

/-- The reference holds `://` or starts with `urn:`. -/
def IsTakenWhole (reference : List Char) : Prop :=
  "://".toList <:+: reference ∨ "urn:".toList <+: reference

instance (reference : List Char) : Decidable (IsTakenWhole reference) :=
  inferInstanceAs (Decidable (_ ∨ _))

theorem isAbsolute_iff {reference : List Char} :
    isAbsolute reference = true ↔ IsTakenWhole reference := by
  rw [isAbsolute, Bool.or_eq_true, isSome_breakBefore_iff, List.isPrefixOf_iff_prefix,
    IsTakenWhole]

theorem resolve_of_isTakenWhole (base : Iri) {reference : String}
    (h : IsTakenWhole reference.toList) : base.resolve reference = ⟨reference⟩ := by
  rw [resolve, if_pos (isAbsolute_iff.mpr h)]

theorem isAlpha_of_hasScheme {reference : List Char} (h : HasScheme reference) :
    ∃ c rest, reference = c :: rest ∧ c.isAlpha = true := by
  cases reference with
  | nil => cases h.2
  | cons c rest =>
    refine ⟨c, rest, rfl, ?_⟩
    have hfirst := h.1.1
    rw [List.takeWhile_cons] at hfirst
    split at hfirst
    · exact hfirst
    · cases hfirst

/-- Any other reference with a scheme replaces the local name of the base. -/
theorem resolve_of_hasScheme (base : Iri) {reference : String}
    (hscheme : HasScheme reference.toList) (hwhole : ¬IsTakenWhole reference.toList) :
    base.resolve reference = base.beside reference := by
  rw [resolve, if_neg (mt isAbsolute_iff.mp hwhole)]
  obtain ⟨c, rest, hreference, hc⟩ := isAlpha_of_hasScheme hscheme
  split
  · rename_i hnil
    cases hnil.symm.trans hreference
  · rename_i more hsign
    obtain ⟨rfl, -⟩ := List.cons.inj (hsign.symm.trans hreference)
    exact absurd hc (by decide)
  · rename_i more hslash
    obtain ⟨rfl, -⟩ := List.cons.inj (hslash.symm.trans hreference)
    exact absurd hc (by decide)
  · rfl

theorem stem_eq_empty_iff {i : Iri} : i.stem = "" ↔ i.text = "" := by
  rw [stem]
  cases hcut : i.cut? with
  | none => rfl
  | some parts =>
    obtain ⟨before, after⟩ := parts
    have hparts : before ≠ [] ∧ before ++ after = i.text.toList := by
      rcases Option.or_eq_some_iff.mp hcut with h | ⟨-, h⟩ <;>
        exact ⟨ne_nil_of_splitAfterLast h, append_of_splitAfterLast h⟩
    refine iff_of_false (fun h => hparts.1 ?_) (fun h => ?_)
    · exact String.ofList_eq_empty_iff.mp h
    · rw [h] at hparts
      exact hparts.1 (List.append_eq_nil_iff.mp hparts.2).1

/-! ## Texts that start with a site -/

/-- The characters that end an authority. -/
def isDelimiter (c : Char) : Bool := c == '/' || c == '?' || c == '#'

/-- The text starts with the part, which ends there or goes on with a delimiter. -/
def StartsAt (part text : List Char) : Prop :=
  ∃ rest, text = part ++ rest ∧ ∀ c ∈ rest.head?, isDelimiter c = true

section StartsAt

variable {part front text : List Char}

theorem startsAt_append_iff :
    StartsAt part (part ++ text) ↔ ∀ c ∈ text.head?, isDelimiter c = true := by
  constructor
  · rintro ⟨rest, heq, hrest⟩
    rwa [List.append_cancel_left heq]
  · intro h
    exact ⟨text, rfl, h⟩

theorem startsAt_append_append_iff :
    StartsAt (front ++ part) (front ++ text) ↔ StartsAt part text := by
  constructor
  · rintro ⟨rest, heq, hrest⟩
    rw [List.append_assoc] at heq
    exact ⟨rest, List.append_cancel_left heq, hrest⟩
  · rintro ⟨rest, rfl, hrest⟩
    exact ⟨rest, (List.append_assoc ..).symm, hrest⟩

end StartsAt

/-! ## Bases -/

/-- A base with a scheme and an authority. What follows the authority is a path, a query and a
fragment, each of which may be missing. -/
structure SitedBase where
  scheme : List Char
  authority : List Char
  rest : List Char
  isScheme : IsScheme scheme
  authority_all : ∀ c ∈ authority, isDelimiter c = false
  rest_head : ∀ c ∈ rest.head?, isDelimiter c = true

namespace SitedBase

variable (b : SitedBase)

/-- The scheme and the authority. -/
def site : List Char := b.scheme ++ "://".toList ++ b.authority

/-- The base as one text. -/
def iri : Iri := ⟨String.ofList (b.site ++ b.rest)⟩

theorem text_iri : b.iri.text.toList = b.site ++ b.rest := String.toList_ofList

theorem number_sign_notMem_site : '#' ∉ b.site := by
  have hscheme := not_mem_of_isScheme b.isScheme (c := '#') (by decide)
  have hauthority : '#' ∉ b.authority := fun h => absurd (b.authority_all _ h) (by decide)
  simp [site, hscheme, hauthority]

theorem slash_notMem_authority : '/' ∉ b.authority :=
  fun h => absurd (b.authority_all _ h) (by decide)

/-- A part of what follows the authority, and a reference that starts with a delimiter. -/
theorem startsAt_site_takeWhile (p : Char → Bool) {reference : List Char}
    (h : ∀ c ∈ reference.head?, isDelimiter c = true) :
    StartsAt b.site (b.site ++ b.rest.takeWhile p ++ reference) := by
  rw [List.append_assoc, startsAt_append_iff]
  cases htake : b.rest.takeWhile p with
  | nil => exact h
  | cons c taken =>
    obtain ⟨after, hrest⟩ := List.takeWhile_prefix (l := b.rest) p
    rintro d hd
    obtain rfl := Option.some.inj hd
    exact b.rest_head c (by rw [← hrest, htake]; rfl)

/-- The base up to its first `/` behind `://`. -/
theorem site?_text : site? b.iri.text.toList = some (b.site ++ b.rest.takeWhile (· != '/')) := by
  have hcolon := not_mem_of_isScheme b.isScheme (c := ':') (by decide)
  have htext : b.iri.text.toList =
      b.scheme ++ ':' :: ['/', '/'] ++ (b.authority ++ b.rest) := by
    rw [text_iri, site, List.append_assoc]
    rfl
  have hauthority : ∀ c ∈ b.authority, (c != '/') = true := by
    intro c hc
    rw [bne_iff_ne]
    rintro rfl
    exact b.slash_notMem_authority hc
  have hpattern : "://".toList = ':' :: ['/', '/'] := rfl
  rw [site?, htext, hpattern, breakBefore_append hcolon]
  simp [site, List.takeWhile_append_of_pos hauthority]

/-- Behind the authority, the base is cut behind its last `#`, or else its last `/`. -/
theorem cut?_of_mem (h : '#' ∈ b.rest ∨ '/' ∈ b.rest) : ∃ before after,
    b.iri.cut? = some (b.site ++ before, after) ∧ before ≠ [] ∧ before ++ after = b.rest := by
  rw [cut?, text_iri]
  cases hsign : splitAfterLast '#' b.rest with
  | some parts =>
    obtain ⟨before, after⟩ := parts
    refine ⟨before, after, ?_, ne_nil_of_splitAfterLast hsign, append_of_splitAfterLast hsign⟩
    rw [splitAfterLast_append hsign]
    rfl
  | none =>
    have hnone := splitAfterLast_eq_none_iff.mp hsign
    have hslash : '/' ∈ b.rest := h.resolve_left hnone
    obtain ⟨⟨before, after⟩, hcut⟩ := Option.ne_none_iff_exists'.mp
      (mt splitAfterLast_eq_none_iff.mp (not_not.mpr hslash))
    refine ⟨before, after, ?_, ne_nil_of_splitAfterLast hcut, append_of_splitAfterLast hcut⟩
    have hnosign : splitAfterLast '#' (b.site ++ b.rest) = none := by
      rw [splitAfterLast_eq_none_iff, List.mem_append, not_or]
      exact ⟨b.number_sign_notMem_site, hnone⟩
    rw [hnosign, splitAfterLast_append hcut]
    rfl

/-- With no `#` and no `/` behind the authority, the base is cut behind its `://`. -/
theorem cut?_of_notMem (hsign : '#' ∉ b.rest) (hslash : '/' ∉ b.rest) :
    b.iri.cut? = some (b.scheme ++ "://".toList, b.authority ++ b.rest) := by
  have hnosign : splitAfterLast '#' (b.site ++ b.rest) = none := by
    rw [splitAfterLast_eq_none_iff, List.mem_append, not_or]
    exact ⟨b.number_sign_notMem_site, hsign⟩
  have hnoslash : '/' ∉ b.authority ++ b.rest := by
    rw [List.mem_append, not_or]
    exact ⟨b.slash_notMem_authority, hslash⟩
  have htext : b.site ++ b.rest =
      (b.scheme ++ [':', '/']) ++ ('/' :: (b.authority ++ b.rest)) := by
    rw [site, List.append_assoc]
    simp
  rw [cut?, text_iri, hnosign, htext, splitAfterLast_append (splitAfterLast_cons_self hnoslash)]
  simp

/-- A reference in place of the local name keeps the authority, unless the authority itself is taken
for the local name; then the reference has to bring it again. -/
theorem startsAt_beside_iff (reference : String) :
    StartsAt b.site (b.iri.beside reference).text.toList ↔
      '#' ∈ b.rest ∨ '/' ∈ b.rest ∨ StartsAt b.authority reference.toList := by
  rw [← or_assoc, beside, String.toList_append]
  by_cases hmem : '#' ∈ b.rest ∨ '/' ∈ b.rest
  · obtain ⟨before, after, hcut, hne, happend⟩ := b.cut?_of_mem hmem
    have hstem : b.iri.stem = String.ofList (b.site ++ before) := by rw [stem, hcut]
    obtain ⟨c, more, rfl⟩ := List.exists_cons_of_ne_nil hne
    have hstarts : StartsAt b.site (b.site ++ (c :: more) ++ reference.toList) := by
      rw [List.append_assoc, startsAt_append_iff]
      rintro d hd
      obtain rfl := Option.some.inj hd
      exact b.rest_head c (by rw [← happend]; rfl)
    rw [hstem, String.toList_ofList]
    exact iff_of_true hstarts (Or.inl hmem)
  · obtain ⟨hsign, hslash⟩ := not_or.mp hmem
    have hstem : b.iri.stem = String.ofList (b.scheme ++ "://".toList) := by
      rw [stem, b.cut?_of_notMem hsign hslash]
    rw [hstem, String.toList_ofList, site, startsAt_append_append_iff, or_iff_right hmem]

end SitedBase

/-- A reference without a scheme does not start with a site. -/
theorem SitedBase.not_startsAt_of_not_hasScheme (b : SitedBase) {reference : List Char}
    (h : ¬HasScheme reference) : ¬StartsAt b.site reference := by
  rintro ⟨rest, rfl, -⟩
  apply h
  rw [hasScheme_iff]
  exact ⟨b.scheme, ['/', '/'] ++ b.authority ++ rest, b.isScheme, by simp [site]⟩

/-- When a reference without a scheme keeps the scheme and the authority of the base: it must not
hold `://`, and it must start with `#` or `/`, or the base must have a `#` or a `/` behind its
authority, or the reference must start with that authority. -/
theorem startsAt_resolve_iff (b : SitedBase) {reference : String} (hne : reference ≠ "")
    (hscheme : ¬HasScheme reference.toList) :
    StartsAt b.site (b.iri.resolve reference).text.toList ↔
      ¬"://".toList <:+: reference.toList ∧
        (reference.toList.head? = some '#' ∨ reference.toList.head? = some '/' ∨
          '#' ∈ b.rest ∨ '/' ∈ b.rest ∨ StartsAt b.authority reference.toList) := by
  by_cases hholds : "://".toList <:+: reference.toList
  · rw [resolve_of_isTakenWhole b.iri (Or.inl hholds)]
    exact iff_of_false (b.not_startsAt_of_not_hasScheme hscheme) fun h => h.1 hholds
  · have hrelative : isAbsolute reference.toList ≠ true := by
      rw [ne_eq, isAbsolute_iff]
      rintro (h | ⟨rest, h⟩)
      · exact hholds h
      · refine hscheme (hasScheme_iff.mpr ⟨"urn".toList, rest, by decide, ?_⟩)
        rw [← h]
        rfl
    rw [and_iff_right hholds, resolve, if_neg hrelative]
    split
    · rename_i hnil
      exact absurd (String.toList_eq_nil_iff.mp hnil) hne
    · rename_i more hsign
      have hkeeps : StartsAt b.site (b.site ++ b.rest.takeWhile (· != '#') ++ reference.toList) :=
        b.startsAt_site_takeWhile _ (by simp [hsign, isDelimiter])
      have hsite : ∀ c ∈ b.site, (c != '#') = true := by
        intro c hc
        rw [bne_iff_ne]
        rintro rfl
        exact b.number_sign_notMem_site hc
      rw [String.toList_append, String.toList_ofList, b.text_iri,
        List.takeWhile_append_of_pos hsite]
      exact iff_of_true hkeeps (Or.inl (by rw [hsign]; rfl))
    · rename_i more hslash
      have hkeeps : StartsAt b.site (b.site ++ b.rest.takeWhile (· != '/') ++ reference.toList) :=
        b.startsAt_site_takeWhile _ (by simp [hslash, isDelimiter])
      rw [b.site?_text]
      dsimp only
      rw [String.toList_append, String.toList_ofList]
      exact iff_of_true hkeeps (Or.inr (Or.inl (by rw [hslash]; rfl)))
    · rename_i _ hsign hslash
      have hother : ∀ c : Char, reference.toList.head? = some c → c ≠ '#' ∧ c ≠ '/' := by
        intro c hc
        obtain ⟨more, hmore⟩ := List.head?_eq_some_iff.mp hc
        constructor
        · rintro rfl
          exact hsign more hmore
        · rintro rfl
          exact hslash more hmore
      rw [b.startsAt_beside_iff, or_iff_right fun h => (hother _ h).1 rfl,
        or_iff_right fun h => (hother _ h).2 rfl]

/-! A base that ends with its authority, and one that has a query behind it. -/

namespace PathlessBase

def bare : SitedBase where
  scheme := "http".toList
  authority := "example.org".toList
  rest := []
  isScheme := by decide
  authority_all := by simp [isDelimiter]
  rest_head := by simp

def queried : SitedBase := { bare with
  rest := "?from=a/b".toList
  rest_head := by simp [isDelimiter] }

/-- The slash in the query is enough to keep the authority. -/
theorem startsAt_resolve_queried : "other" ≠ "" ∧ ¬HasScheme "other".toList ∧
    StartsAt queried.site (queried.iri.resolve "other").text.toList :=
  ⟨by decide, by decide, (startsAt_resolve_iff queried (by decide) (by decide)).mpr
    ⟨by decide, Or.inr (Or.inr (Or.inr (Or.inl (by decide))))⟩⟩

theorem resolve_bare : (bare.iri.resolve "other").text = "http://other" := by
  decide

/-- With nothing behind the authority, a reference takes its place. -/
theorem not_forall_startsAt_resolve :
    ¬∀ (b : SitedBase) (reference : String), reference ≠ "" → ¬HasScheme reference.toList →
      ¬"//".toList <+: reference.toList →
        StartsAt b.site (b.iri.resolve reference).text.toList := by
  intro h
  obtain ⟨rest, htext, -⟩ := h bare "other" (by decide) (by decide) (by decide)
  rw [resolve_bare] at htext
  have hstarts : bare.site <+: "http://other".toList := ⟨rest, htext.symm⟩
  exact absurd hstarts (by decide)

end PathlessBase

end Iri

end GraphConformance
