import GraphConformance.Proofs.Turtle.TwinEntries

/-!
# One document after another

Reading a text, a line end and more text is reading the first text and then the other one, when the
first is accepted and closes its strings. The first text is read alike with the line end and the
other text behind it (`twin_endsWithLine`), so that each of its entries is read as it was, and the
other text is read from the state that the first one leaves, and halts at the same place in itself
(`suffix_readEntries`).

Strings are the exception: three quote characters that no others close are an empty string and the
start of another one, until the text that follows closes them (`not_forall_readDocument_append`).
-/

set_option autoImplicit false

namespace GraphConformance.Turtle

open Text Vocabulary

variable {b : List Char}

/-! ## A line end and more text -/

/-- The second text is the first with a line end and more text behind it. -/
def EndsWithLine (b s u : List Char) : Prop := u = s ++ '\n' :: b

theorem twin_endsWithLine (b : List Char) : Twin 0 (EndsWithLine b) where
  nil := by
    rintro u rfl c hc
    simpa [eq_comm] using hc
  cons := by
    rintro c s u rfl
    exact ⟨c, s ++ '\n' :: b, rfl, rfl, rfl, fun _ => rfl⟩
  first := fun _ hlength => absurd hlength (Nat.succ_ne_zero _)

/-- Each string of the text that opens with three quote characters is closed in the text by the same
three, unless these do not occur in the text that follows. -/
def ClosesStrings (s b : List Char) : Prop :=
  ∀ t ∈ stringStarts s, ∀ q ∈ ['"', '\x27'],
    (word? [q, q, q] t).isSome → longString? q t = none → breakBefore [q, q, q] b = none

theorem ClosesStrings.of_follows {s r : List Char} (h : ClosesStrings s b) (hr : Follows s r) :
    ClosesStrings r b :=
  fun t ht => h t (hr.starts ht)

theorem ClosesStrings.within {s : List Char} (h : ClosesStrings s b) :
    ClosesWithin (EndsWithLine b) s := by
  rintro t ht q hq hopens hopen e rfl
  have hline : '\n' ≠ q := by
    rintro rfl
    exact absurd hq (by decide)
  simp [breakBefore, List.isPrefixOf, hline.symm, h t ht q hq hopens hopen]

/-- A gap at the end of the text goes on in the text that follows. -/
theorem skipGap_line {isGap : Char → Bool} (hline : isGap '\n' = true) {inComment : Bool}
    {s : List Char} (b : List Char) (h : skipGap isGap inComment s = []) :
    skipGap isGap inComment (s ++ '\n' :: b) = skipGap isGap false b := by
  induction s generalizing inComment with
  | nil => cases inComment <;> simp [skipGap, hline]
  | cons c rest ih =>
    simp only [List.cons_append, skipGap] at h ⊢
    split at h
    · rename_i hinside
      rw [if_pos hinside]
      exact ih h
    · rename_i hinside
      rw [if_neg hinside]
      split at h
      · rename_i hgap
        rw [if_pos hgap]
        exact ih h
      · rename_i hgap
        rw [if_neg hgap]
        split at h
        · rename_i hcomment
          rw [if_pos hcomment]
          exact ih h
        · cases h

/-! ## Documents -/

section Documents

variable {st st' : State} {s u : List Char}

/-- Only what stands behind the gap matters. -/
theorem readEntries_congr {t : List Char} (h : skip s = skip t) (st : State) :
    readEntries st s = readEntries st t := by
  cases ht : skip t with
  | nil => rw [readEntries_of_skip_eq_nil ht, readEntries_of_skip_eq_nil (h.trans ht)]
  | cons c text =>
    cases hentry : readEntry st (c :: text) with
    | mk st' result =>
      cases result with
      | error halt =>
        rw [readEntries_of_halt ht (List.cons_ne_nil c text) hentry,
          readEntries_of_halt (h.trans ht) (List.cons_ne_nil c text) hentry]
      | ok answer =>
        rw [readEntries_of_readEntry ht (List.cons_ne_nil c text) hentry,
          readEntries_of_readEntry (h.trans ht) (List.cons_ne_nil c text) hentry]

/-- The entries of an accepted text are read, and then those of the text that follows. -/
theorem readEntries_line (hclosed : ClosesStrings s b) (h : readEntries st s = (st', .ok ())) :
    readEntries st (s ++ '\n' :: b) = readEntries st' b := by
  induction st, s using readEntries.induct with
  | case1 st s _ hskip =>
    rw [readEntries_of_skip_eq_nil hskip] at h
    obtain ⟨rfl, -⟩ := Prod.mk.inj h
    exact readEntries_congr (skipGap_line (by decide) b hskip) st
  | case2 st s c text _ hskip st'' halt hentry =>
    rw [readEntries_of_halt hskip (List.cons_ne_nil c text) hentry] at h
    cases (Prod.mk.inj h).2
  | case3 st s c text _ hskip st'' v r hentry _ ih =>
    rw [readEntries_of_readEntry hskip (List.cons_ne_nil c text) hentry] at h
    have hgap : Follows s (c :: text) := hskip ▸ follows_skip s
    have hentries := hgap.trans ((within_readEntry st (c :: text)).follows _ r
      (congrArg Reading.result hentry))
    have hs : EndsWithLine b (c :: text) ((c :: text) ++ '\n' :: b) := rfl
    obtain ⟨r', hentry', hr⟩ := readEntry_twin (twin_endsWithLine b) hs
      (hclosed.of_follows hgap).within (Nat.zero_le _) hentry
    have hskip' : skip (s ++ '\n' :: b) = (c :: text) ++ '\n' :: b := by
      have hne : skip s ≠ [] := by rw [hskip]; exact List.cons_ne_nil c text
      have h : EndsWithLine b (skip s) _ := skip_twin (twin_endsWithLine b) rfl hne
      rw [h, hskip]
    rw [readEntries_of_readEntry hskip' (List.cons_ne_nil c _) hentry', show r'.1 = _ from hr]
    exact ih (hclosed.of_follows hentries) h

end Documents

/-- The error at a place that stands so many bytes further behind. -/
def ParseError.shift (n : Nat) : ParseError → ParseError
  | malformed position cause => malformed (position + n) cause
  | undefinedPrefix name => undefinedPrefix name
  | unexpectedEnd => unexpectedEnd

/-- A place in the second text stands behind the first one and the line end. -/
theorem inText_line {halt : Halt} {s : List Char}
    (h : ∀ rest cause, halt = .before rest cause → rest <:+ b) :
    halt.inText (s ++ '\n' :: b) = (halt.inText b).shift (utf8Length s + 1) := by
  cases halt with
  | undefinedPrefix name => rfl
  | before rest cause =>
    cases rest with
    | nil => rfl
    | cons c rest =>
      obtain ⟨front, hfront⟩ := h _ _ rfl
      have hlength := congrArg utf8Length hfront
      have hline : utf8Length ('\n' :: b) = 1 + utf8Length b := rfl
      rw [utf8Length_append] at hlength
      simp only [Halt.inText, ParseError.shift, utf8Length_append, hline]
      congr 1
      omega

/-! ## A string that stays open -/

section OpenString

variable {st st₁ st₂ : State} {s : List Char}

theorem readTerm_of_readAtom (st : State) (hbracket : s.head? ≠ some '[')
    (hparen : s.head? ≠ some '(') {l : Literal} {r : Shorter s}
    (h : readAtom s = .ok (.literal l, r)) : readTerm st s = ⟨st, .ok (.literal l, r)⟩ := by
  rw [readTerm, mark?_of_head hbracket, mark?_of_head hparen, h]
  rfl

theorem readItems_cons (hs : s.head? ≠ some ')') {item : Term} {r : Shorter s}
    (hterm : readTerm st s = ⟨st₁, .ok (item, r)⟩) {items : List Term} {q : Shorter (skip r.1)}
    (hitems : readItems st₁ (skip r.1) = ⟨st₂, .ok (items, q)⟩) :
    readItems st s = ⟨st₂, .ok (item :: items, r.skip.trans q)⟩ := by
  rw [readItems, mark?_of_head hs]
  dsimp only
  rw [hterm]
  dsimp only
  rw [hitems]

theorem readTerm_list {items : List Term} {q : Shorter (skip s)}
    (hitems : readItems st (skip s) = ⟨st₁, .ok (items, q)⟩) :
    ∃ hlt, readTerm st ('(' :: s) =
      ⟨(st₁.addList items).1, .ok ((st₁.addList items).2, ⟨q.1, hlt⟩)⟩ := by
  refine ⟨(Shorter.tail '(' s).skip.trans q |>.2, ?_⟩
  rw [readTerm, mark?_of_head (by simp), show mark? '(' ('(' :: s) = some (.tail '(' s) from rfl]
  dsimp only
  rw [show readItems st (skip (Shorter.tail '(' s).1) = ⟨st₁, .ok (items, q)⟩ from hitems]
  rfl

theorem readTerm_list_halt {halt : Halt} (hitems : readItems st (skip s) = ⟨st₁, .error halt⟩) :
    readTerm st ('(' :: s) = ⟨st₁, .error halt⟩ := by
  rw [readTerm, mark?_of_head (by simp), show mark? '(' ('(' :: s) = some (.tail '(' s) from rfl]
  dsimp only
  rw [show readItems st (skip (Shorter.tail '(' s).1) = ⟨st₁, .error halt⟩ from hitems]

/-- Its first item is an empty string, because three quote characters that no others close are an
empty string and the start of the next one, here of another empty one. -/
def quotes : String := "(\"\"\"\")a[]."

/-- The list is the subject. -/
theorem readTerm_quotes (st : State) :
    ∃ st' b hlt, readTerm st quotes.toList =
      ⟨st', .ok (.blank b, ⟨['a', '[', ']', '.'], hlt⟩)⟩ := by
  have hfirst : readTerm st ['"', '"', '"', '"', ')', 'a', '[', ']', '.'] =
      ⟨st, .ok (.literal ⟨"", .plain⟩, ⟨['"', '"', ')', 'a', '[', ']', '.'], by decide⟩)⟩ :=
    readTerm_of_readAtom st (by simp) (by simp) rfl
  have hsecond : readTerm st ['"', '"', ')', 'a', '[', ']', '.'] =
      ⟨st, .ok (.literal ⟨"", .plain⟩, ⟨[')', 'a', '[', ']', '.'], by decide⟩)⟩ :=
    readTerm_of_readAtom st (by simp) (by simp) rfl
  have hend : readItems st [')', 'a', '[', ']', '.'] =
      ⟨st, .ok ([], ⟨['a', '[', ']', '.'], by decide⟩)⟩ := by
    rw [readItems]
    rfl
  obtain ⟨hlt, hterm⟩ := readTerm_list (s := ['"', '"', '"', '"', ')', 'a', '[', ']', '.'])
    (readItems_cons (by simp) hfirst (readItems_cons (by simp) hsecond hend))
  exact ⟨_, _, hlt, hterm⟩

theorem readPredicates_quotes (st : State) (subject : Term) :
    ∃ st' hlt, readPredicates st subject ['a', '[', ']', '.'] =
      ⟨st', .ok ((), ⟨['.'], hlt⟩)⟩ := by
  have hnode : readTerm st ['[', ']', '.'] =
      ⟨st.freshBlank.1, .ok (st.freshBlank.2, ⟨['.'], by decide⟩)⟩ := by
    rw [readTerm]
    rfl
  have hobjects : readObjects st subject (.iri Rdf.type) ['[', ']', '.'] =
      ⟨st.freshBlank.1.addTriple subject (.iri Rdf.type) st.freshBlank.2,
        .ok ((), ⟨['.'], by decide⟩)⟩ := by
    rw [readObjects, hnode]
    rfl
  have hpredicate : readPredicate st ['a', '[', ']', '.'] =
      ⟨st, .ok (.iri Rdf.type, ⟨['[', ']', '.'], by decide⟩)⟩ := by
    rw [readPredicate]
    rfl
  refine ⟨st.freshBlank.1.addTriple subject (.iri Rdf.type) st.freshBlank.2, by decide, ?_⟩
  rw [readPredicates, hpredicate]
  dsimp only
  rw [show readObjects st subject (.iri Rdf.type) (skip ['[', ']', '.']) = _
    from hobjects]
  rfl

/-- The text is accepted in every state. -/
theorem readDocument_quotes (st : State) : ∃ st', st.readDocument quotes = (st', .ok ()) := by
  obtain ⟨st₁, b, _, hterm⟩ := readTerm_quotes st
  obtain ⟨st₂, _, hpredicates⟩ := readPredicates_quotes st₁ (.blank b)
  have hstatement : readStatement st quotes.toList = ⟨st₂, .ok ((), ⟨[], by decide⟩)⟩ := by
    rw [readStatement, hterm]
    dsimp only
    rw [if_pos (by rfl), if_neg (by decide)]
    rw [show readPredicates st₁ (.blank b) (skip ['a', '[', ']', '.']) = _ from hpredicates]
    rfl
  have hentry : readEntry st quotes.toList = ⟨st₂, .ok ((), ⟨[], by decide⟩)⟩ := by
    rw [readEntry, if_neg (by decide), if_neg (by decide), hstatement]
  have hentries : readEntries st quotes.toList = (st₂, .ok ()) := by
    rw [readEntries_of_readEntry (by decide) (by decide) hentry]
    exact readEntries_of_skip_eq_nil rfl st₂
  exact ⟨st₂, by rw [State.readDocument, hentries]⟩

/-- With a comment that holds three quote characters behind it, the list is not closed: it has one
string for an item, which these three end. -/
theorem readDocument_quotes_comment (st : State) :
    (st.readDocument (quotes ++ "\n" ++ "#\"\"\"")).2 = .error .unexpectedEnd := by
  have hstring : readTerm st
      ['"', '"', '"', '"', ')', 'a', '[', ']', '.', '\n', '#', '"', '"', '"'] =
        ⟨st, .ok (.literal ⟨"\")a[].\n#", .plain⟩, ⟨[], by decide⟩)⟩ :=
    readTerm_of_readAtom st (by simp) (by simp) rfl
  have hend : readItems st [] = ⟨st, .error (.before [] (.noTerm []))⟩ := by
    rw [readItems, readTerm]
    rfl
  have hitems : readItems st
      ['"', '"', '"', '"', ')', 'a', '[', ']', '.', '\n', '#', '"', '"', '"'] =
        ⟨st, .error (.before [] (.noTerm []))⟩ := by
    rw [readItems, mark?_of_head (by simp), hstring]
    dsimp only
    rw [show readItems st (skip []) = _ from hend]
  have hterm : readTerm st (quotes ++ "\n" ++ "#\"\"\"").toList =
      ⟨st, .error (.before [] (.noTerm []))⟩ :=
    readTerm_list_halt
      (s := ['"', '"', '"', '"', ')', 'a', '[', ']', '.', '\n', '#', '"', '"', '"']) hitems
  have hstatement : readStatement st (quotes ++ "\n" ++ "#\"\"\"").toList =
      ⟨st, .error (.before [] (.noTerm []))⟩ := by
    rw [readStatement, hterm]
  have hentry : readEntry st (quotes ++ "\n" ++ "#\"\"\"").toList =
      ⟨st, .error (.before [] (.noTerm []))⟩ := by
    rw [readEntry, if_neg (by decide), if_neg (by decide), hstatement]
  rw [State.readDocument, readEntries_of_halt (by decide) (by decide) hentry]
  rfl

end OpenString

/-! ## Reading on -/

/-- A text that is accepted and closes its strings, a line end and another text: the state and the
error are those of the second text, read after the first one. -/
theorem readDocument_append {st st' : State} {a b : String}
    (ha : st.readDocument a = (st', .ok ())) (hclosed : ClosesStrings a.toList b.toList) :
    st.readDocument (a ++ "\n" ++ b) = ((st'.readDocument b).1,
      (st'.readDocument b).2.mapError (ParseError.shift (utf8Length a.toList + 1))) := by
  have hread : readEntries st a.toList = (st', .ok ()) := by
    rw [State.readDocument] at ha
    split at ha
    · rename_i heq
      rw [heq]
      exact congrArg (·, _) (Prod.mk.inj ha).1
    · cases (Prod.mk.inj ha).2
  have htext : (a ++ "\n" ++ b).toList = a.toList ++ '\n' :: b.toList := by
    simp [String.toList_append]
  have hentries := readEntries_line hclosed hread
  rw [State.readDocument, State.readDocument, htext, hentries]
  cases hsecond : readEntries st' b.toList with
  | mk last result =>
    cases result with
    | ok answer => rfl
    | error halt =>
      have hplace : halt.inText (a.toList ++ '\n' :: b.toList) =
          (halt.inText b.toList).shift (utf8Length a.toList + 1) := by
        apply inText_line
        rintro rest cause rfl
        exact suffix_readEntries hsecond
      dsimp only
      rw [hplace]
      rfl

/-- A list whose first string stays open, and text with three quote characters of the other kind and
an open string at its end. -/
theorem readDocument_quotes_append :
    ∃ st', (State.initial 0 none).readDocument quotes = (st', .ok ()) ∧
      ClosesStrings quotes.toList "<s> <p> '''x''' . \"".toList ∧
      (State.initial 0 none).readDocument (quotes ++ "\n" ++ "<s> <p> '''x''' . \"") =
        ((st'.readDocument "<s> <p> '''x''' . \"").1,
          (st'.readDocument "<s> <p> '''x''' . \"").2.mapError
            (ParseError.shift (utf8Length quotes.toList + 1))) := by
  obtain ⟨st', hquotes⟩ := readDocument_quotes (State.initial 0 none)
  have hfirst : string? ['"', '"', '"', '"', ')', 'a', '[', ']', '.'] =
      some ([], ⟨['"', '"', ')', 'a', '[', ']', '.'], by decide⟩) := by rfl
  have hsecond : string? ['"', '"', ')', 'a', '[', ']', '.'] =
      some ([], ⟨[')', 'a', '[', ']', '.'], by decide⟩) := by rfl
  have hnone : stringStarts ([')', 'a', '[', ']', '.'] ++ []) = [] := by
    rw [stringStarts_append (by decide), stringStarts]
  have hstarts : stringStarts quotes.toList =
      [['"', '"', '"', '"', ')', 'a', '[', ']', '.'], ['"', '"', ')', 'a', '[', ']', '.']] := by
    change stringStarts ('(' :: ['"', '"', '"', '"', ')', 'a', '[', ']', '.']) = _
    rw [stringStarts_cons (by decide), stringStarts_of_string? rfl hfirst,
      stringStarts_of_string? rfl hsecond]
    exact congrArg (fun more => [_, _] ++ more) hnone
  have hclosed : ClosesStrings quotes.toList "<s> <p> '''x''' . \"".toList := by
    rw [ClosesStrings, hstarts]
    refine List.forall_mem_cons.mpr ⟨?_, List.forall_mem_singleton.mpr ?_⟩
    · exact List.forall_mem_cons.mpr ⟨by decide, List.forall_mem_singleton.mpr (by decide)⟩
    · exact List.forall_mem_cons.mpr ⟨by decide, List.forall_mem_singleton.mpr (by decide)⟩
  exact ⟨st', hquotes, hclosed, readDocument_append hquotes hclosed⟩

/-- Text that holds three quote characters closes the string before it, so that reading the texts
together is not reading one after the other. -/
theorem not_forall_readDocument_append :
    ¬ ∀ (st st' : State) (a b : String), st.readDocument a = (st', .ok ()) →
      st.readDocument (a ++ "\n" ++ b) = ((st'.readDocument b).1,
        (st'.readDocument b).2.mapError (ParseError.shift (utf8Length a.toList + 1))) := by
  intro h
  obtain ⟨st', hquotes⟩ := readDocument_quotes (State.initial 0 none)
  have hboth := congrArg Prod.snd (h _ st' quotes "#\"\"\"" hquotes)
  have hcomment : readEntries st' "#\"\"\"".toList = (st', .ok ()) :=
    readEntries_of_skip_eq_nil (by decide) st'
  rw [readDocument_quotes_comment, State.readDocument, hcomment] at hboth
  cases hboth

end GraphConformance.Turtle
