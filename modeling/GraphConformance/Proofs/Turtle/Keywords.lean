import GraphConformance.Proofs.Turtle.TwinEntries
import Mathlib.Data.List.Basic

/-!
# Keywords in other letter case

A bare keyword is seen in every letter case (`readEntry_recased`), but understood in capitals only.
So a document in which one such keyword is written in another case is read as it was up to that
keyword, and there its directive is unknown (`readDocument_recased`). In capitals a directive is
never unknown (`readBareDirective_ne_unknownDirective`).

What stands before the keyword is read alike, whatever letter case follows (`twin_recased`): the
keyword starts with a letter that cannot be the first of an exponent, of a truth value or of the
shorthand for a type, and to all other readers letter case makes no difference.
-/

set_option autoImplicit false

namespace GraphConformance.Turtle

open Text

/-! ## Texts up to letter case -/

/-- The texts have the same characters up to letter case. -/
def SameLetters (s u : List Char) : Prop := u.map Char.toLower = s.map Char.toLower

instance (s u : List Char) : Decidable (SameLetters s u) := inferInstanceAs (Decidable (_ = _))

namespace SameLetters

variable {s u t v : List Char}

theorem append (h : SameLetters s u) (h' : SameLetters t v) : SameLetters (s ++ t) (u ++ v) := by
  rw [SameLetters, List.map_append, List.map_append, h, h']

theorem length_eq (h : SameLetters s u) : u.length = s.length := by
  simpa using congrArg List.length h

end SameLetters

/-- The texts have the same characters up to letter case, and the very same ones up to the end `t`
of the first, in whose place `t'` stands in the second. -/
def Recased (t t' s u : List Char) : Prop :=
  SameLetters s u ∧ (t.length ≤ s.length → ∃ front, s = front ++ t ∧ u = front ++ t')

variable {t t' : List Char}

theorem twin_recased (hstart : ∀ c ∈ t.head?, c.toLower = 'p' ∨ c.toLower = 'b') :
    Twin t.length (Recased t t') where
  nil := by
    rintro u ⟨hletters, -⟩
    obtain rfl : u = [] := List.length_eq_zero_iff.mp hletters.length_eq
    simp
  cons := by
    rintro c s u ⟨hletters, hfront⟩
    cases u with
    | nil => cases hletters
    | cons d v =>
      obtain ⟨hcase, hrest⟩ := List.cons.inj hletters
      have hcut : t.length ≤ s.length → d = c ∧ ∃ front, s = front ++ t ∧ v = front ++ t' := by
        intro hle
        obtain ⟨front, hs, hu⟩ := hfront (Nat.le_succ_of_le hle)
        -- the end is no longer than what stands behind the character, which is thus before it
        cases front with
        | nil =>
          rw [List.nil_append] at hs
          rw [← hs, List.length_cons] at hle
          exact absurd hle (Nat.not_succ_le_self _)
        | cons e front =>
          obtain ⟨rfl, rfl⟩ := List.cons.inj hs
          obtain ⟨rfl, rfl⟩ := List.cons.inj hu
          exact ⟨rfl, front, rfl, rfl⟩
      exact ⟨d, v, rfl, ⟨hrest, fun hle => (hcut hle).2⟩, hcase, fun hle => (hcut hle).1⟩
  first := by
    rintro c s u ⟨-, hfront⟩ hlength
    obtain ⟨front, hs, -⟩ := hfront (Nat.le_of_eq hlength.symm)
    have hempty : front = [] := by
      have hlengths := congrArg List.length hs
      rw [List.length_append, List.length_cons, hlength] at hlengths
      exact List.length_eq_zero_iff.mp (by omega)
    rw [hempty, List.nil_append] at hs
    exact hstart c (by rw [← hs]; rfl)

/-- No more text follows, so that none can close a string. -/
theorem closesWithin_recased (s : List Char) : ClosesWithin (Recased t t') s := by
  rintro r - q - - - e ⟨hletters, -⟩
  obtain rfl : e = [] := List.length_eq_zero_iff.mp hletters.length_eq
  rfl

/-- Reading comes to the same place when the letter case of what stands there is changed. -/
theorem ReadsUpTo.recased {st st' : State} {before : List Char}
    (hstart : ∀ c ∈ t.head?, c.toLower = 'p' ∨ c.toLower = 'b') (hletters : SameLetters t t')
    (h : ReadsUpTo st (before ++ t) st' t) : ReadsUpTo st (before ++ t') st' t' := by
  have hbefore : Recased t t' (before ++ t) (before ++ t') :=
    ⟨.append rfl hletters, fun _ => ⟨before, rfl, rfl⟩⟩
  obtain ⟨place, hreads, -, hfront⟩ :=
    h.twin (twin_recased hstart) (closesWithin_recased _) hbefore
  -- at the place itself nothing is left in front of the end
  obtain ⟨front, ht, hplace⟩ := hfront (Nat.le_refl _)
  obtain rfl : front = [] := List.append_left_eq_self.mp ht.symm
  rwa [hplace, List.nil_append] at hreads

/-! ## Keywords -/

/-- The keywords of the directives that start without an at sign. -/
def bareKeywords : List (List Char) := ["PREFIX".toList, "BASE".toList]

section Keywords

variable {keyword keyword' after : List Char}

theorem startsWithKeyword_recased (hletters : SameLetters keyword keyword')
    (hspace : ∃ c ∈ after.head?, isWhiteSpace c = true) :
    startsWithKeyword keyword (keyword' ++ after) = true := by
  obtain ⟨c, hc, hspace⟩ := hspace
  obtain ⟨rest, rfl⟩ := List.head?_eq_some_iff.mp hc
  have hlength := hletters.length_eq
  rw [startsWithKeyword, ← hlength, List.take_left, List.drop_left, hletters]
  simp [hspace]

variable (hkeyword : keyword ∈ bareKeywords)

include hkeyword

/-- In any letter case a keyword starts with one of two letters. -/
theorem head?_keyword (hletters : SameLetters keyword keyword') :
    ∀ c ∈ (keyword' ++ after).head?, c.toLower = 'p' ∨ c.toLower = 'b' := by
  have hfirst : ∀ w ∈ bareKeywords,
      (w.map Char.toLower).head? = some 'p' ∨ (w.map Char.toLower).head? = some 'b' := by decide
  obtain ⟨d, hd, hcase⟩ : ∃ d, (keyword.map Char.toLower).head? = some d ∧ (d = 'p' ∨ d = 'b') := by
    rcases hfirst keyword hkeyword with hd | hd
    · exact ⟨'p', hd, Or.inl rfl⟩
    · exact ⟨'b', hd, Or.inr rfl⟩
  rw [← hletters] at hd
  cases keyword' with
  | nil => cases hd
  | cons c rest =>
    obtain rfl := Option.some.inj hd
    intro e he
    obtain rfl := Option.some.inj he
    exact hcase

/-- A keyword in any letter case is taken for the start of a directive. -/
theorem readEntry_recased (st : State) (hletters : SameLetters keyword keyword')
    (hspace : ∃ c ∈ after.head?, isWhiteSpace c = true) :
    readEntry st (keyword' ++ after) = readBareDirective st (keyword' ++ after) := by
  have hat : (keyword' ++ after).head? ≠ some '@' := by
    intro hhead
    exact absurd (head?_keyword hkeyword hletters '@' hhead) (by decide)
  have hseen := startsWithKeyword_recased hletters hspace
  have hbare : startsWithKeyword "PREFIX".toList (keyword' ++ after) = true ∨
      startsWithKeyword "BASE".toList (keyword' ++ after) = true := by
    rcases List.mem_pair.mp hkeyword with rfl | rfl
    · exact Or.inl hseen
    · exact Or.inr hseen
  rw [readEntry, if_neg hat, if_pos (Bool.or_eq_true_iff.mpr hbare)]

/-- No keyword is found where another spelling of one stands. -/
theorem word?_eq_none_of_recased {w : List Char} (hw : w ∈ bareKeywords)
    (hletters : SameLetters keyword keyword') (hne : keyword' ≠ keyword) :
    word? w (keyword' ++ after) = none := by
  apply word?_eq_none_of_append
  intro rest heq
  have hlower : w.map Char.toLower <+: keyword.map Char.toLower ++ after.map Char.toLower := by
    rw [← hletters, ← List.map_append, ← heq, List.map_append]
    exact List.prefix_append _ _
  -- neither keyword is the start of the other, in whatever letter case
  have hapart : ∀ v ∈ bareKeywords, ∀ v' ∈ bareKeywords,
      v.map Char.toLower <+: v'.map Char.toLower → v = v' := by decide
  have hsame : w = keyword := by
    rcases List.prefix_or_prefix_of_prefix hlower (List.prefix_append _ _) with hle | hle
    · exact hapart w hw keyword hkeyword hle
    · exact (hapart keyword hkeyword w hw hle).symm
  subst hsame
  exact hne (List.append_inj_left heq hletters.length_eq.symm).symm

/-- In other letter case than capitals the directive is unknown. -/
theorem readBareDirective_recased (st : State) (hletters : SameLetters keyword keyword')
    (hne : keyword' ≠ keyword) : readBareDirective st (keyword' ++ after) =
      ⟨st, .error (.before (keyword' ++ after) .unknownDirective)⟩ := by
  have hnone : ∀ w ∈ bareKeywords, word? w (keyword' ++ after) = none :=
    fun w hw => word?_eq_none_of_recased hkeyword hw hletters hne
  rw [readBareDirective, hnone "PREFIX".toList (by decide), hnone "BASE".toList (by decide)]

end Keywords

section Capitals

variable {s : List Char} (st : State)

theorem readPrefixDeclaration_ne_unknownDirective (r : Shorter s) (rest : List Char) :
    (readPrefixDeclaration st r).result ≠ .error (.before rest .unknownDirective) := by
  rw [readPrefixDeclaration]
  split
  · rename_i halt hcolon
    rw [expect] at hcolon
    split at hcolon
    · cases hcolon
    · obtain rfl := Except.error.inj hcolon
      simp
  · dsimp only
    split
    · simp
    · simp

theorem readBaseDeclaration_ne_unknownDirective (r : Shorter s) (rest : List Char) :
    (readBaseDeclaration st r).result ≠ .error (.before rest .unknownDirective) := by
  rw [readBaseDeclaration]
  split
  · simp
  · simp

/-- A keyword in capitals is understood. -/
theorem readBareDirective_ne_unknownDirective {keyword : List Char}
    (hkeyword : keyword ∈ bareKeywords) (after rest : List Char) :
    (readBareDirective st (keyword ++ after)).result ≠
      .error (.before rest .unknownDirective) := by
  rcases List.mem_pair.mp hkeyword with rfl | rfl
  · exact readPrefixDeclaration_ne_unknownDirective st _ rest
  · exact readBaseDeclaration_ne_unknownDirective st _ rest

end Capitals

/-! ## Documents -/

/-- Reading comes to the same keywords whatever letter case they and what follows them are in, up to
the first one that is not in capitals; there the directive is unknown. A keyword in capitals never
makes it so. -/
theorem readDocument_recased {st st' : State} {before keyword after keyword' after' : String}
    (hkeyword : keyword.toList ∈ bareKeywords)
    (hspace : ∃ c ∈ after.toList.head?, isWhiteSpace c = true)
    (hletters : SameLetters keyword.toList keyword'.toList)
    (hafter : SameLetters after.toList after'.toList)
    (hreads : ReadsUpTo st (before ++ keyword ++ after).toList st' (keyword ++ after).toList) :
    ReadsUpTo st (before ++ keyword' ++ after').toList st' (keyword' ++ after').toList ∧
      (keyword' = keyword → ∀ rest, (readEntry st' (keyword' ++ after').toList).result ≠
        .error (.before rest .unknownDirective)) ∧
      (keyword' ≠ keyword → st.readDocument (before ++ keyword' ++ after') =
        (st', .error (.malformed (utf8Length before.toList) .unknownDirective))) := by
  simp only [String.toList_append, List.append_assoc] at hreads ⊢
  have hspace' : ∃ c ∈ after'.toList.head?, isWhiteSpace c = true := by
    obtain ⟨c, hc, hspace⟩ := hspace
    have hhead := congrArg List.head? hafter
    rw [List.head?_map, List.head?_map, hc] at hhead
    obtain ⟨d, hd, hcase⟩ := Option.map_eq_some_iff.mp hhead
    refine ⟨d, hd, ?_⟩
    rw [← isWhiteSpace_toLower, hcase, isWhiteSpace_toLower, hspace]
  have hentry := readEntry_recased hkeyword st' hletters hspace'
  have hplace := hreads.recased (head?_keyword hkeyword rfl) (hletters.append hafter)
  refine ⟨hplace, ?_, ?_⟩
  · rintro rfl rest
    rw [String.toList_append, hentry]
    exact readBareDirective_ne_unknownDirective st' hkeyword after'.toList rest
  · intro hne
    have hne' : keyword'.toList ≠ keyword.toList := fun heq => hne (String.toList_inj.mp heq)
    rw [readBareDirective_recased hkeyword st' hletters hne'] at hentry
    have hentries := hplace.readEntries_eq hentry
    have htext : (before ++ keyword' ++ after').toList =
        before.toList ++ (keyword'.toList ++ after'.toList) := by simp
    rw [State.readDocument, htext, hentries]
    obtain ⟨c, text, hcons⟩ := List.exists_cons_of_ne_nil hplace.ne_nil
    rw [hcons]
    simp only [Halt.inText, utf8Length_append, Nat.add_sub_cancel]

/-! A directive, and another one after it. -/

namespace TwoDirectives

def binding : String := " e: <http://e/>\n"

def rest : String := " <http://b/>\nprefix f: <f>"

theorem readEntry_first (st : State) (behind : List Char) :
    ∃ st' hlt, readEntry st ("PREFIX".toList ++ binding.toList ++ behind) =
      ⟨st', .ok ((), ⟨'\n' :: behind, hlt⟩)⟩ := by
  have hlt : ('\n' :: behind).length < ("PREFIX".toList ++ binding.toList ++ behind).length := by
    have hlength : ("PREFIX".toList ++ binding.toList).length = 22 := by decide
    rw [List.length_append, hlength, List.length_cons]
    omega
  exact ⟨_, hlt, rfl⟩

/-- Reading comes to the second directive. -/
theorem readsUpTo_second (st : State) : ∃ st', ReadsUpTo st
    ("PREFIX" ++ binding ++ "BASE" ++ rest).toList st' ("BASE" ++ rest).toList := by
  obtain ⟨st', hlt, hentry⟩ := readEntry_first st ("BASE" ++ rest).toList
  exact ⟨st', .entry (by decide) (by decide) hentry (.here (by rfl) (by decide))⟩

/-- In capitals it is not unknown, in whatever letter case more directives follow. In other letter
case it is, at the byte where it stands. -/
theorem readDocument_recased_second : ∃ st',
    ReadsUpTo (.initial 0 none) ("PREFIX" ++ binding ++ "BASE" ++ rest).toList st'
        ("BASE" ++ rest).toList ∧
      (∀ after, (readEntry st' ("BASE" ++ " <http://b/>\nPREFIX f: <f>").toList).result ≠
        .error (.before after .unknownDirective)) ∧
      (State.initial 0 none).readDocument ("PREFIX" ++ binding ++ "Base" ++ rest) =
        (st', .error (.malformed 22 .unknownDirective)) := by
  obtain ⟨st', hreads⟩ := readsUpTo_second (.initial 0 none)
  have hspace : ∃ c ∈ rest.toList.head?, isWhiteSpace c = true := ⟨' ', by decide, by decide⟩
  have hcapitals := readDocument_recased (by decide) hspace rfl
    (show SameLetters rest.toList " <http://b/>\nPREFIX f: <f>".toList by decide) hreads
  have hmixed := readDocument_recased (by decide) hspace
    (show SameLetters "BASE".toList "Base".toList by decide) rfl hreads
  exact ⟨st', hreads, hcapitals.2.1 rfl, hmixed.2.2 (by decide)⟩

/-- So the letter case of a keyword makes a difference. -/
theorem not_forall_readDocument_recased :
    ¬ ∀ (st : State) (keyword keyword' after : String), keyword.toList ∈ bareKeywords →
      SameLetters keyword.toList keyword'.toList →
        st.readDocument (keyword' ++ after) = st.readDocument (keyword ++ after) := by
  intro h
  have hsame := h (.initial 0 none) "PREFIX" "prefix" binding (by decide) (by decide)
  obtain ⟨st', hlt, hentry⟩ := readEntry_first (.initial 0 none) []
  have hcapitals : ((State.initial 0 none).readDocument ("PREFIX" ++ binding)).2 = .ok () := by
    have hentries : readEntries (.initial 0 none) ("PREFIX" ++ binding).toList = (st', .ok ()) := by
      rw [readEntries_of_readEntry (by decide) (by decide) hentry]
      exact readEntries_of_skip_eq_nil rfl st'
    rw [State.readDocument, hentries]
  have hlower : readEntry (.initial 0 none) ("prefix" ++ binding).toList = ⟨.initial 0 none,
      .error (.before ("prefix" ++ binding).toList .unknownDirective)⟩ := by
    rfl
  rw [← hsame, State.readDocument, readEntries_of_halt (by decide) (by decide) hlower] at hcapitals
  cases hcapitals

end TwoDirectives

end GraphConformance.Turtle
