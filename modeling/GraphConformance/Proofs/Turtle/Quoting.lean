import GraphConformance.Proofs.Turtle.Tokens

/-!
# The four forms of a string

A text can stand between single or triple quote characters of two kinds (`Quoting`), with what is
special in it escaped. In a short string an escaped quote character is passed over with its
backslash. A long string ends at the first three quote characters in a row, whether the first of
them is escaped or not: inside an escaped text there are no two in a row (`breakBefore_escapeFor`),
but an escaped one at its end makes three with the first two of the closing ones, and then the
string ends too early (`string?_long_of_quote`).
-/

set_option autoImplicit false

namespace GraphConformance.Turtle

open Text

/-- The forms of a string. -/
inductive Quoting where
  | double
  | single
  | longDouble
  | longSingle
deriving DecidableEq, Repr

namespace Quoting

/-- The quote character of a form. -/
def quote : Quoting → Char
  | double => '"'
  | single => '\x27'
  | longDouble => '"'
  | longSingle => '\x27'

/-- Whether a form has three quote characters on either side. -/
def isLong : Quoting → Bool
  | double => false
  | single => false
  | longDouble => true
  | longSingle => true

/-- What stands on either side of a text. -/
def delimiter (form : Quoting) : List Char :=
  if form.isLong then [form.quote, form.quote, form.quote] else [form.quote]

/-- A text in a form: backslashes, line ends, tabs and the quote character of the form are
escaped. -/
def write (form : Quoting) (text : List Char) : List Char :=
  form.delimiter ++ escapeFor form.quote text ++ form.delimiter

theorem quote_mem (form : Quoting) : form.quote ∈ ['"', '\x27'] := by
  cases form <;> decide

end Quoting

/-! ## Three quote characters in a row -/

section Quotes

variable {quote : Char} {text rest s before after : List Char}

theorem breakBefore_three (quote : Char) (rest : List Char) :
    breakBefore [quote, quote, quote] (quote :: quote :: quote :: rest) =
      some ([], quote :: quote :: quote :: rest) := by
  simp [breakBefore]

theorem breakBefore_of_ne {c : Char} (hc : c ≠ quote)
    (h : breakBefore [quote, quote, quote] s = some (before, after)) :
    breakBefore [quote, quote, quote] (c :: s) = some (c :: before, after) := by
  simp [breakBefore, h, Ne.symm hc]

theorem breakBefore_of_head (hs : s.head? ≠ some quote)
    (h : breakBefore [quote, quote, quote] s = some (before, after)) (c : Char) :
    breakBefore [quote, quote, quote] (c :: s) = some (c :: before, after) := by
  cases s with
  | nil => simp [breakBefore] at h
  | cons d s =>
    have hd : quote ≠ d := fun hd => hs (congrArg some hd.symm)
    rw [breakBefore, h]
    simp [hd]

variable (hquote : quote ∈ ['"', '\x27'])

include hquote

/-- An escape is passed over, unless it ends in a quote character that begins three in a row. -/
theorem breakBefore_escapeCharFor {c : Char} (hs : c = quote → s.head? ≠ some quote)
    (h : breakBefore [quote, quote, quote] s = some (before, after)) :
    breakBefore [quote, quote, quote] (escapeCharFor quote c ++ s) =
      some (escapeCharFor quote c ++ before, after) := by
  rcases escapeCharFor_cases hquote c with ⟨d, hescape, -, hd⟩ | ⟨hescape, hne, -⟩
  · rw [hescape]
    change breakBefore _ ('\\' :: d :: s) = some ('\\' :: d :: before, after)
    apply breakBefore_of_ne (backslash_ne_quote hquote)
    by_cases hdq : d = quote
    · exact breakBefore_of_head (hs (hd hdq)) h d
    · exact breakBefore_of_ne hdq h
  · rw [hescape]
    exact breakBefore_of_ne hne h

/-- An escaped text is passed over, unless it ends in a quote character that begins three in a
row. -/
theorem breakBefore_escapeFor (hs : text.getLast? = some quote → s.head? ≠ some quote)
    (h : breakBefore [quote, quote, quote] s = some (before, after)) :
    breakBefore [quote, quote, quote] (escapeFor quote text ++ s) =
      some (escapeFor quote text ++ before, after) := by
  induction text with
  | nil => exact h
  | cons c text ih =>
    rw [escapeFor, List.flatMap_cons, List.append_assoc, List.append_assoc, ← escapeFor]
    cases text with
    | nil =>
      apply breakBefore_escapeCharFor hquote ?_ h
      rintro rfl
      exact hs rfl
    | cons d text =>
      rw [List.getLast?_cons_cons] at hs
      exact breakBefore_escapeCharFor hquote (fun _ => head?_escapeFor_cons hquote d text s) (ih hs)

/-! ## Long strings -/

theorem string?_of_longString? {body : List Char} {r : Shorter s} (hhead : s.head? = some quote)
    (h : longString? quote s = some (body, r)) : string? s = some (unescape body, r) := by
  rw [string?_of_head hquote hhead, h]
  rfl

theorem string?_of_breakBefore {body : List Char}
    (hcut : breakBefore [quote, quote, quote] s = some (body, after)) :
    ∃ hlt, string? (quote :: quote :: quote :: s) = some (unescape body, ⟨after.drop 3, hlt⟩) := by
  have hword : word? [quote, quote, quote] (quote :: quote :: quote :: s) =
      some ⟨s, by simp only [List.length_cons]; omega⟩ := by
    rw [word?_cons, word?_cons, word?, if_pos rfl]
    rfl
  obtain ⟨hlt, hlong⟩ := longString?_of_closed hword hcut
  exact ⟨hlt, string?_of_longString? hquote rfl hlong⟩

theorem string?_long (hlast : text.getLast? ≠ some quote) :
    ∃ hlt, string? (quote :: quote :: quote ::
      (escapeFor quote text ++ quote :: quote :: quote :: rest)) = some (text, ⟨rest, hlt⟩) := by
  have hcut := breakBefore_escapeFor hquote (fun h => absurd h hlast)
    (breakBefore_three quote rest)
  have hunescape : unescape (escapeFor quote text ++ []) = text := by
    simpa [unescape] using unescape_escapeFor hquote text []
  obtain ⟨hlt, hstring⟩ := string?_of_breakBefore hquote hcut
  rw [hunescape] at hstring
  exact ⟨hlt, hstring⟩

/-- The backslash of the last quote character is left of the text, and a quote character of the
closing ones is left behind it. -/
theorem string?_long_of_quote (text rest : List Char) :
    ∃ hlt, string? (quote :: quote :: quote ::
      (escapeFor quote (text ++ [quote]) ++ quote :: quote :: quote :: rest)) =
        some (text ++ ['\\'], ⟨quote :: rest, hlt⟩) := by
  have hescape : escapeFor quote (text ++ [quote]) = escapeFor quote text ++ ['\\', quote] := by
    simp [escapeFor, escapeCharFor]
  have hbackslash := backslash_ne_quote hquote
  have hend : breakBefore [quote, quote, quote]
      ('\\' :: quote :: quote :: quote :: quote :: rest) =
        some (['\\'], quote :: quote :: quote :: quote :: rest) :=
    breakBefore_of_ne hbackslash (breakBefore_three quote (quote :: rest))
  have hcut : breakBefore [quote, quote, quote]
      (escapeFor quote text ++ '\\' :: quote :: quote :: quote :: quote :: rest) =
        some (escapeFor quote text ++ ['\\'], quote :: quote :: quote :: quote :: rest) := by
    apply breakBefore_escapeFor hquote ?_ hend
    exact fun _ hhead => hbackslash (Option.some.inj hhead)
  obtain ⟨hlt, hstring⟩ := string?_of_breakBefore hquote hcut
  rw [unescape_escapeFor hquote] at hstring
  rw [hescape, List.append_assoc]
  exact ⟨hlt, hstring⟩

end Quotes

namespace Quoting

variable {form : Quoting}

theorem write_append_of_short (h : form.isLong = false) (text rest : List Char) :
    form.write text ++ rest =
      form.quote :: (escapeFor form.quote text ++ form.quote :: rest) := by
  simp [write, delimiter, h]

theorem write_append_of_long (h : form.isLong = true) (text rest : List Char) :
    form.write text ++ rest = form.quote :: form.quote :: form.quote ::
      (escapeFor form.quote text ++ form.quote :: form.quote :: form.quote :: rest) := by
  simp [write, delimiter, h]

end Quoting

/-- A text that is written in one of the four forms is read back, with what stands after it left,
unless the form is long and the text ends in its quote character: then the last character is read as
a backslash, and a quote character is left before what stands after. What stands after a short
string must not make its quote characters three. -/
theorem string?_write (form : Quoting) (text rest : List Char)
    (hrest : form.isLong = false → rest.head? ≠ some form.quote) :
    ((form.isLong = true → text.getLast? ≠ some form.quote) →
      ∃ hlt, string? (form.write text ++ rest) = some (text, ⟨rest, hlt⟩)) ∧
    (form.isLong = true → ∀ before, text = before ++ [form.quote] →
      ∃ hlt, string? (form.write text ++ rest) =
        some (before ++ ['\\'], ⟨form.quote :: rest, hlt⟩)) := by
  constructor
  · intro hlast
    cases hlong : form.isLong with
    | false =>
      rw [Quoting.write_append_of_short hlong]
      exact string?_escapeFor form.quote_mem (hrest hlong)
    | true =>
      rw [Quoting.write_append_of_long hlong]
      exact string?_long form.quote_mem (hlast hlong)
  · rintro hlong before rfl
    rw [Quoting.write_append_of_long hlong]
    exact string?_long_of_quote form.quote_mem before rest

/-! A word with an escape and quote characters of both kinds, and a word that ends in one. -/

namespace QuotedWords

def mixed : List Char := ['"', 'i', 't', '\\', '\x27', 's', '"', '\n']

def ending : List Char := ['h', 'i', '"']

def after : List Char := [' ', '.']

/-- The first word is read back from all four forms, and the second one from the short ones. From
triple quote characters of its kind it comes back with a backslash for its last character. -/
theorem string?_write_words :
    (∀ form : Quoting, ∃ hlt, string? (form.write mixed ++ after) = some (mixed, ⟨after, hlt⟩)) ∧
      (∃ hlt, string? (Quoting.double.write ending ++ after) = some (ending, ⟨after, hlt⟩)) ∧
      ∃ hlt, string? (Quoting.longDouble.write ending ++ after) =
        some (['h', 'i', '\\'], ⟨'"' :: after, hlt⟩) := by
  have hafter : ∀ form : Quoting, form.isLong = false → after.head? ≠ some form.quote := by
    intro form _
    cases form <;> decide
  refine ⟨?_, ?_, ?_⟩
  · intro form
    apply (string?_write form mixed after (hafter form)).1
    intro _
    cases form <;> decide
  · exact (string?_write .double ending after (hafter .double)).1 (by decide)
  · exact (string?_write .longDouble ending after (hafter .longDouble)).2 rfl ['h', 'i'] rfl

/-- So it does not come back from all forms, although no quote character stands after it. -/
theorem not_forall_string?_write :
    ¬ ∀ (form : Quoting) (text rest : List Char), (∀ c ∈ rest.head?, c ∉ ['"', '\x27']) →
      ∃ hlt, string? (form.write text ++ rest) = some (text, ⟨rest, hlt⟩) := by
  intro h
  have hafter : ∀ c ∈ after.head?, c ∉ ['"', '\x27'] := by
    intro c hc
    obtain rfl := Option.some.inj hc
    decide
  obtain ⟨_, hread⟩ := h .longDouble ending after hafter
  obtain ⟨_, hcut⟩ := string?_long_of_quote Quoting.longDouble.quote_mem ['h', 'i'] after
  have htexts := Option.some.inj (hcut.symm.trans hread)
  have hne : ['h', 'i', '\\'] ≠ ending := by decide
  exact hne (congrArg Prod.fst htexts)

end QuotedWords

end GraphConformance.Turtle
