import GraphConformance.Proofs.Turtle.Rests

/-!
# Where a document is wrong

Reading halts at an end of its text (`suffix_readEntries`). Of a halt before the end of the text the
number of bytes in front of it is reported, and of a halt at the end only that it is the end
(`reports_inText`). So a position that is reported is one of the text at which a character starts,
whatever documents the reader was given before (`pointsInto_readAll`).
-/

set_option autoImplicit false

namespace GraphConformance

/-! ## Bytes of a text -/

namespace Text

theorem utf8Length_ofList (s : List Char) : utf8Length s = (String.ofList s).utf8ByteSize := by
  induction s with
  | nil => rfl
  | cons c rest ih =>
    have hsplit : String.ofList (c :: rest) = String.singleton c ++ String.ofList rest := by
      rw [String.singleton_eq_ofList, ← String.ofList_append]
      rfl
    have hcons : utf8Length (c :: rest) = c.utf8Size + utf8Length rest := rfl
    rw [hcons, ih, hsplit, String.utf8ByteSize_append, String.utf8ByteSize_singleton]

end Text

namespace Turtle

open Text

/-! ## Places and what is reported of them -/

/-- The state after several documents, each of which was read to its end or up to its error. -/
def State.readAll (st : State) (texts : List String) : State :=
  texts.foldl (fun st text => (st.readDocument text).1) st

/-- What is reported of a halt in a text. -/
inductive Reports (text : String) : Halt → ParseError → Prop where
  | undefinedPrefix (name : String) : Reports text (.undefinedPrefix name) (.undefinedPrefix name)
  | atEnd (cause : Cause) : Reports text (.before [] cause) .unexpectedEnd
  | inside {before rest : String} (htext : text = before ++ rest) (hrest : rest ≠ "")
      (cause : Cause) : Reports text (.before rest.toList cause)
        (.malformed before.utf8ByteSize cause)

/-- A document that is read from a state is read to its end, or its error is what is reported of the
halt. A position in the error is that of a character of the text. -/
structure PointsInto (st : State) (text : String) : Prop where
  reported :
    ((readEntries st text.toList).2 = .ok () ∧ (st.readDocument text).2 = .ok ()) ∨
      ∃ halt e, (readEntries st text.toList).2 = .error halt ∧
        (st.readDocument text).2 = .error e ∧ Reports text halt e
  position : ∀ position cause, (st.readDocument text).2 = .error (.malformed position cause) →
    position < text.utf8ByteSize ∧ String.Pos.Raw.IsValid text ⟨position⟩

section Reports

variable {text : String}

/-- The bytes of the rest are taken from those of the text, of which the rest is an end. -/
theorem reports_inText {halt : Halt}
    (h : ∀ rest cause, halt = .before rest cause → rest <:+ text.toList) :
    Reports text halt (halt.inText text.toList) := by
  cases halt with
  | undefinedPrefix name => exact .undefinedPrefix name
  | before rest cause =>
    cases rest with
    | nil => exact .atEnd cause
    | cons c rest =>
      obtain ⟨front, hfront⟩ := h _ _ rfl
      have htext : text = String.ofList front ++ String.ofList (c :: rest) := by
        rw [← String.ofList_append, hfront, String.ofList_toList]
      have hposition : utf8Length text.toList - utf8Length (c :: rest) =
          (String.ofList front).utf8ByteSize := by
        rw [← hfront, utf8Length_append, Nat.add_sub_cancel, utf8Length_ofList]
      have hinside := Reports.inside htext (by simp) cause
      rwa [String.toList_ofList, ← hposition] at hinside

theorem Reports.isValid {halt : Halt} {position : Nat} {cause : Cause}
    (h : Reports text halt (.malformed position cause)) :
    position < text.utf8ByteSize ∧ String.Pos.Raw.IsValid text ⟨position⟩ := by
  cases h with
  | inside htext hrest =>
    rename_i before rest
    have hbytes : rest.utf8ByteSize ≠ 0 := by simpa using hrest
    subst htext
    refine ⟨?_, String.Pos.Raw.isValid_iff_exists_append.mpr ⟨before, rest, rfl, rfl⟩⟩
    rw [String.utf8ByteSize_append]
    omega

end Reports

theorem pointsInto_readDocument (st : State) (text : String) : PointsInto st text := by
  have hreported : ((readEntries st text.toList).2 = .ok () ∧ (st.readDocument text).2 = .ok ()) ∨
      ∃ halt e, (readEntries st text.toList).2 = .error halt ∧
        (st.readDocument text).2 = .error e ∧ Reports text halt e := by
    rw [State.readDocument]
    cases hread : readEntries st text.toList with
    | mk st' result =>
      cases result with
      | ok answer => exact Or.inl ⟨rfl, rfl⟩
      | error halt =>
        refine Or.inr ⟨halt, _, rfl, rfl, reports_inText ?_⟩
        rintro rest cause rfl
        exact suffix_readEntries hread
  refine ⟨hreported, fun position cause herror => ?_⟩
  rcases hreported with ⟨-, hok⟩ | ⟨halt, e, -, he, hreports⟩
  · cases hok.symm.trans herror
  · obtain rfl := Except.error.inj (he.symm.trans herror)
    exact hreports.isValid

/-- Each of the documents that one reader is given is read to its end, or halts at a place of its
own text, before the end of which a position is reported. -/
theorem pointsInto_readAll (st : State) (earlier : List String) (text : String) :
    PointsInto (st.readAll earlier) text :=
  pointsInto_readDocument _ text

end Turtle

end GraphConformance
