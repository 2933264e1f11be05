import GraphConformance.Turtle.Atom
import Mathlib.Data.Bool.AllAny

/-!
# Written terms are read back

Each lemma says that a reader, started at what is written for a term, answers the term and leaves
exactly the text that was written after it. What follows decides where a token ends, so the text
after it stays open: a run ends at the first character outside its class, a reference and a string
at their closing mark.

A quoted text is read back because escaping leaves no bare quote in it (`shortBody?_escapeFor`) and
unescaping takes each escape back (`unescape_escapeFor`); that holds for both quote characters.
`readAtom_chars` puts the readers together.
-/

set_option autoImplicit false

namespace GraphConformance

open Text Vocabulary

namespace Text

/-! ## Marks and runs -/

theorem mark?_of_eq {m : Char} {s rest : List Char} (h : s = m :: rest) :
    ∃ hlt, mark? m s = some ⟨rest, hlt⟩ := by
  subst h
  exact ⟨by simp, if_pos rfl⟩

theorem mark?_of_head {m : Char} {s : List Char} (h : s.head? ≠ some m) : mark? m s = none := by
  cases s with
  | nil => rfl
  | cons c rest => exact if_neg fun hc => h (congrArg some hc)

theorem word?_of_head {w : Char} {word s : List Char} (h : s.head? ≠ some w) :
    word? (w :: word) s = none := by
  cases s with
  | nil => rfl
  | cons c rest =>
    have hc : c ≠ w := fun hc => h (congrArg some hc)
    cases word with
    | nil => exact if_neg hc
    | cons w' word => exact if_neg hc

theorem word?_cons (w w' : Char) (word s : List Char) :
    word? (w :: w' :: word) (w :: s) = (word? (w' :: word) s).map (.cons w) :=
  if_pos rfl

theorem of_mem_head?_cons {P : Char → Prop} {c : Char} (h : P c) (rest : List Char) :
    ∀ d ∈ (c :: rest).head?, P d := by
  intro d hd
  exact Option.some.inj hd ▸ h

section Runs

variable {p : Char → Bool} {word rest : List Char}

theorem takeWhile_append (hword : ∀ c ∈ word, p c = true) (hrest : ∀ c ∈ rest.head?, p c = false) :
    (word ++ rest).takeWhile p = word := by
  rw [List.takeWhile_append_of_pos hword]
  cases rest with
  | nil => simp
  | cons c rest =>
    rw [List.takeWhile_cons_of_neg (by simp [hrest c rfl]), List.append_nil]

theorem dropWhile_append (hword : ∀ c ∈ word, p c = true) (hrest : ∀ c ∈ rest.head?, p c = false) :
    (word ++ rest).dropWhile p = rest := by
  rw [List.dropWhile_append_of_pos hword]
  cases rest with
  | nil => rfl
  | cons c rest => exact List.dropWhile_cons_of_neg (by simp [hrest c rfl])

/-- A run ends before the first character outside its class. -/
theorem run?_append (hne : word ≠ []) (hword : ∀ c ∈ word, p c = true)
    (hrest : ∀ c ∈ rest.head?, p c = false) :
    ∃ hlt, run? p (word ++ rest) = some (word, ⟨rest, hlt⟩) := by
  cases word with
  | nil => exact absurd rfl hne
  | cons c word =>
    obtain ⟨hc, hword⟩ := List.forall_mem_cons.mp hword
    refine ⟨by simp only [List.length_cons, List.length_append]; omega, ?_⟩
    simp only [List.cons_append, run?, hc, if_true, takeWhile_append hword hrest,
      dropWhile_append hword hrest]

end Runs

end Text

/-! ## Names of blank nodes -/

namespace BlankNode

/-- What is written for a blank node after its mark. -/
def name (b : BlankNode) : List Char :=
  match b.label with
  | some label => label.toList ++ '_' :: decimal b.id
  | none => 'b' :: decimal b.id

theorem chars_eq (b : BlankNode) : b.chars = '_' :: ':' :: b.name := by
  rw [chars, name]
  cases b.label <;> rfl

theorem ne_underscore_of_mem_decimal {n : Nat} {c : Char} (h : c ∈ decimal n) : c ≠ '_' := by
  simpa using forall_mem_decimal (· != '_') (by decide) n c h

/-- The number of a node is what follows the last underscore of its name. -/
theorem eq_of_append_decimal {first second : List Char} {m n : Nat}
    (h : first ++ '_' :: decimal m = second ++ '_' :: decimal n) : first = second ∧ m = n := by
  have hreverse : (decimal m).reverse ++ '_' :: first.reverse =
      (decimal n).reverse ++ '_' :: second.reverse := by
    simpa using congrArg List.reverse h
  have hdigits : ∀ n, ∀ c ∈ (decimal n).reverse, (c != '_') = true := by
    intro n c hc
    simpa using ne_underscore_of_mem_decimal (List.mem_reverse.mp hc)
  have hmark : ∀ before : List Char, ∀ c ∈ ('_' :: before).head?, (c != '_') = false :=
    of_mem_head?_cons (by decide)
  constructor
  · have hafter := congrArg (List.dropWhile (· != '_')) hreverse
    rw [dropWhile_append (hdigits m) (hmark _), dropWhile_append (hdigits n) (hmark _)] at hafter
    exact List.reverse_inj.mp (List.cons.inj hafter).2
  · have hbefore := congrArg (List.takeWhile (· != '_')) hreverse
    rw [takeWhile_append (hdigits m) (hmark _), takeWhile_append (hdigits n) (hmark _)] at hbefore
    exact decimal_injective (List.reverse_inj.mp hbefore)

/-- No underscore stands in the name of a node without label. -/
theorem ne_of_label {label : List Char} {m n : Nat} :
    label ++ '_' :: decimal m ≠ 'b' :: decimal n := by
  intro h
  have hmem : '_' ∈ 'b' :: decimal n := by
    rw [← h]
    simp
  rcases List.mem_cons.mp hmem with hb | hdigit
  · exact absurd hb (by decide)
  · exact ne_underscore_of_mem_decimal hdigit rfl

/-- Different nodes have different names. -/
theorem name_injective : Function.Injective name := by
  rintro ⟨m, first⟩ ⟨n, second⟩ h
  cases first with
  | some first =>
    cases second with
    | some second =>
      obtain ⟨hlabel, rfl⟩ := eq_of_append_decimal h
      rw [String.toList_injective hlabel]
    | none => exact absurd h ne_of_label
  | none =>
    cases second with
    | some second => exact absurd h.symm ne_of_label
    | none =>
      obtain rfl : m = n := decimal_injective (List.cons.inj h).2
      rfl

end BlankNode

/-- The characters of a language tag. -/
def Turtle.isTagChar (c : Char) : Bool := isAlphanumeric c || c == '-'

/-! ## Terms that can be read back -/

/-- The reference of an IRI can stand between angle brackets. -/
def Iri.Writable (i : Iri) : Prop := ∀ c ∈ i.text.toList, Turtle.isReferenceChar c = true

/-- A datatype can be written, and a language tag is not empty, has the characters of a tag and is
in lower case. -/
def Literal.Writable (l : Literal) : Prop :=
  match l.type with
  | .plain => True
  | .language tag => tag ≠ "" ∧ (∀ c ∈ tag.toList, Turtle.isTagChar c = true) ∧ lowercase tag = tag
  | .typed datatype => datatype.Writable

/-- A label, if there is one, has the characters of a name. -/
def BlankNode.Writable (b : BlankNode) : Prop :=
  ∀ label ∈ b.label, ∀ c ∈ label.toList, Turtle.isNameChar c = true

/-- What is written for the term can be read back. -/
def Term.Writable : Term → Prop
  | .iri i => i.Writable
  | .literal l => l.Writable
  | .blank b => b.Writable

instance (i : Iri) : Decidable i.Writable :=
  -- not a search through all characters
  List.decidableBAll (fun c => Turtle.isReferenceChar c = true) i.text.toList

instance (l : Literal) : Decidable l.Writable :=
  match l with
  | ⟨_, .plain⟩ => isTrue trivial
  | ⟨_, .language tag⟩ =>
    have := List.decidableBAll (fun c => Turtle.isTagChar c = true) tag.toList
    inferInstanceAs (Decidable (tag ≠ "" ∧ (∀ c ∈ tag.toList, Turtle.isTagChar c = true) ∧
      lowercase tag = tag))
  | ⟨_, .typed datatype⟩ => inferInstanceAs (Decidable datatype.Writable)

instance (b : BlankNode) : Decidable b.Writable :=
  match b with
  | ⟨_, none⟩ => isTrue fun _ h => by cases h
  | ⟨_, some label⟩ =>
    have := List.decidableBAll (fun c => Turtle.isNameChar c = true) label.toList
    decidable_of_iff (∀ c ∈ label.toList, Turtle.isNameChar c = true)
      (by simp [BlankNode.Writable])

instance (t : Term) : Decidable t.Writable :=
  match t with
  | .iri i => inferInstanceAs (Decidable i.Writable)
  | .literal l => inferInstanceAs (Decidable l.Writable)
  | .blank b => inferInstanceAs (Decidable b.Writable)

namespace Turtle

open Literal

variable {rest : List Char}

/-! ## References and labels -/

theorem reference?_brackets {text : List Char} (h : ∀ c ∈ text, isReferenceChar c = true) :
    ∃ hlt, reference? ('<' :: (text ++ '>' :: rest)) = some (text, ⟨rest, hlt⟩) := by
  have hmark : ∀ c ∈ ('>' :: rest).head?, isReferenceChar c = false :=
    of_mem_head?_cons (by decide) rest
  obtain ⟨_, hend⟩ := mark?_of_eq (dropWhile_append h hmark)
  refine ⟨by simp only [List.length_cons, List.length_append]; omega, ?_⟩
  simp only [reference?, hend, takeWhile_append h hmark]

theorem reference?_of_head {s : List Char} (h : s.head? ≠ some '<') : reference? s = none := by
  cases s with
  | nil => rfl
  | cons c rest =>
    rw [reference?]
    intro more hmore
    exact h (congrArg List.head? hmore)

theorem label?_underscore {name : List Char} (hne : name ≠ [])
    (hname : ∀ c ∈ name, isNameChar c = true) (hrest : ∀ c ∈ rest.head?, isNameChar c = false) :
    ∃ hlt, label? ('_' :: ':' :: (name ++ rest)) = some (name, ⟨rest, hlt⟩) := by
  obtain ⟨_, hrun⟩ := run?_append hne hname hrest
  refine ⟨by simp only [List.length_cons, List.length_append]; omega, ?_⟩
  rw [label?, show word? ['_', ':'] ('_' :: ':' :: (name ++ rest)) =
    some ⟨name ++ rest, by simp only [List.length_cons, List.length_append]; omega⟩ from rfl]
  dsimp only
  rw [hrun]
  rfl

/-! ## Quoted texts -/

section Strings

variable {q : Char} {s : List Char} {r : Shorter s}

/-- A text between triple quotes ends before the first three in a row. -/
theorem longString?_of_closed (hword : word? [q, q, q] s = some r) {body after : List Char}
    (hcut : breakBefore [q, q, q] r.1 = some (body, after)) :
    ∃ hlt, longString? q s = some (body, ⟨after.drop 3, hlt⟩) := by
  have hlt : (after.drop 3).length < s.length := by
    have hafter := length_after_breakBefore_le hcut
    have hr := r.2
    rw [List.length_drop]
    omega
  refine ⟨hlt, ?_⟩
  rw [longString?, hword]
  dsimp only
  split
  · rename_i body' after' hcut'
    obtain ⟨rfl, rfl⟩ := Prod.mk.inj (Option.some.inj (hcut.symm.trans hcut'))
    rfl
  · rename_i hcut'
    cases hcut.symm.trans hcut'

theorem longString?_of_open (hword : word? [q, q, q] s = some r)
    (hcut : breakBefore [q, q, q] r.1 = none) : longString? q s = none := by
  rw [longString?, hword]
  dsimp only
  split
  · rename_i body after hcut'
    cases hcut.symm.trans hcut'
  · rfl

theorem longString?_of_word?_eq_none (hword : word? [q, q, q] s = none) :
    longString? q s = none := by
  rw [longString?, hword]

theorem longString?_of_head (h : s.head? ≠ some q) : longString? q s = none :=
  longString?_of_word?_eq_none (word?_of_head h)

theorem shortString?_of_head (h : s.head? ≠ some q) : shortString? q s = none := by
  rw [shortString?, mark?_of_head h]

end Strings

/-- The first character of a string decides between its two kinds of quotes. -/
theorem string?_of_head {q : Char} {s : List Char} (hq : q ∈ ['"', '\x27']) (h : s.head? = some q) :
    string? s = ((longString? q s).or (shortString? q s)).map
      fun (body, r) => (unescape body, r) := by
  have hother : ∀ {p : Char}, p ≠ q → longString? p s = none ∧ shortString? p s = none := by
    intro p hp
    have hhead : s.head? ≠ some p := fun hs => hp (Option.some.inj (hs.symm.trans h))
    exact ⟨longString?_of_head hhead, shortString?_of_head hhead⟩
  rw [string?]
  rcases List.mem_cons.mp hq with rfl | hq
  · obtain ⟨hlong, hshort⟩ := hother (p := '\x27') (by decide)
    rw [hlong, hshort, Option.or_none, Option.or_none]
  · obtain rfl := List.mem_singleton.mp hq
    obtain ⟨hlong, hshort⟩ := hother (p := '"') (by decide)
    rw [hlong, hshort, Option.none_or, Option.none_or]

theorem shortBody?_quote (quote : Char) (rest : List Char) :
    shortBody? quote (quote :: rest) = some ([], .tail quote rest) := by
  cases rest with
  | nil => simp [shortBody?]
  | cons d rest => simp [shortBody?]

theorem shortBody?_escaped {quote : Char} (hquote : '\\' ≠ quote) (d : Char) (s : List Char) :
    shortBody? quote ('\\' :: d :: s) =
      (shortBody? quote s).map fun (body, r) => ('\\' :: d :: body, (r.cons d).cons '\\') := by
  simp [shortBody?, hquote]

theorem shortBody?_cons {quote c : Char} (hquote : c ≠ quote) (hbackslash : c ≠ '\\')
    (hline : c ≠ '\n') (s : List Char) : shortBody? quote (c :: s) =
      (shortBody? quote s).map fun (body, r) => (c :: body, r.cons c) := by
  cases s with
  | nil => simp [shortBody?, hquote, hbackslash, hline]
  | cons d s => simp [shortBody?, hquote, hbackslash, hline]

/-- A character as it stands in a text between quote characters of one kind. -/
def escapeCharFor (quote c : Char) : List Char :=
  if c = quote then ['\\', quote]
  else if c = '\\' then ['\\', '\\']
  else if c = '\n' then ['\\', 'n']
  else if c = '\r' then ['\\', 'r']
  else if c = '\t' then ['\\', 't']
  else [c]

/-- A text as it stands between quote characters of one kind. -/
def escapeFor (quote : Char) (text : List Char) : List Char := text.flatMap (escapeCharFor quote)

/-- Terms are written between double quote characters. -/
theorem escapeFor_double : escapeFor '"' = escape := rfl

section Quotes

variable {quote : Char} (hquote : quote ∈ ['"', '\x27'])

include hquote

theorem backslash_ne_quote : '\\' ≠ quote := by
  rintro rfl
  exact absurd hquote (by decide)

theorem unescapeChar_quote : unescapeChar quote = [quote] := by
  rcases List.mem_cons.mp hquote with rfl | hsingle
  · rfl
  · obtain rfl := List.mem_singleton.mp hsingle
    rfl

/-- An escape stands for its character, and ends in the quote character only if that is escaped. -/
theorem escapeCharFor_cases (c : Char) :
    (∃ d, escapeCharFor quote c = ['\\', d] ∧ unescapeChar d = [c] ∧ (d = quote → c = quote)) ∨
      escapeCharFor quote c = [c] ∧ c ≠ quote ∧ c ≠ '\\' ∧ c ≠ '\n' := by
  have hletters : ∀ d ∈ ['n', 'r', 't'], d ∉ ['"', '\x27'] :=
    List.all_iff_forall_prop.mp (by decide)
  have hletter : ∀ d ∈ ['n', 'r', 't'], d = quote → c = quote := by
    rintro d hd rfl
    exact absurd hquote (hletters d hd)
  rw [escapeCharFor]
  split
  · rename_i hc
    exact Or.inl ⟨quote, rfl, by rw [unescapeChar_quote hquote, hc], fun _ => hc⟩
  · split
    · subst_vars
      exact Or.inl ⟨_, rfl, rfl, id⟩
    · split
      · subst_vars
        exact Or.inl ⟨_, rfl, rfl, hletter 'n' (by decide)⟩
      · split
        · subst_vars
          exact Or.inl ⟨_, rfl, rfl, hletter 'r' (by decide)⟩
        · split
          · subst_vars
            exact Or.inl ⟨_, rfl, rfl, hletter 't' (by decide)⟩
          · exact Or.inr ⟨rfl, ‹_›, ‹_›, ‹_›⟩

/-- Whatever stands for a character between quotes is passed over. -/
theorem shortBody?_escapeCharFor (c : Char) {s body : List Char} {r : Shorter s}
    (h : shortBody? quote s = some (body, r)) :
    ∃ hlt, shortBody? quote (escapeCharFor quote c ++ s) =
      some (escapeCharFor quote c ++ body, ⟨r.1, hlt⟩) := by
  have hr := r.2
  rcases escapeCharFor_cases hquote c with ⟨d, hescape, -⟩ | ⟨hescape, hne, hbackslash, hline⟩
  · rw [hescape]
    refine ⟨by simp only [List.length_cons, List.length_append]; omega, ?_⟩
    change shortBody? quote ('\\' :: d :: s) = some ('\\' :: d :: body, _)
    rw [shortBody?_escaped (backslash_ne_quote hquote), h]
    rfl
  · rw [hescape]
    refine ⟨by simp only [List.length_cons, List.length_append]; omega, ?_⟩
    change shortBody? quote (c :: s) = some (c :: body, _)
    rw [shortBody?_cons hne hbackslash hline, h]
    rfl

theorem shortBody?_escapeFor (text : List Char) :
    ∃ hlt, shortBody? quote (escapeFor quote text ++ quote :: rest) =
      some (escapeFor quote text, ⟨rest, hlt⟩) := by
  induction text with
  | nil => exact ⟨Nat.lt_succ_self _, shortBody?_quote quote rest⟩
  | cons c text ih =>
    obtain ⟨hlt, hbody⟩ := ih
    rw [escapeFor, List.flatMap_cons, List.append_assoc]
    exact shortBody?_escapeCharFor hquote c hbody

theorem unescape_escapeCharFor (c : Char) (s : List Char) :
    unescape (escapeCharFor quote c ++ s) = c :: unescape s := by
  rcases escapeCharFor_cases hquote c with ⟨d, hescape, hd, -⟩ | ⟨hescape, -, hbackslash, -⟩
  · rw [hescape]
    simp [unescape, hd]
  · rw [hescape]
    cases s with
    | nil => rfl
    | cons d s => simp [unescape, hbackslash]

/-- A text that is escaped stands for itself, whatever comes after it. -/
theorem unescape_escapeFor (text s : List Char) :
    unescape (escapeFor quote text ++ s) = text ++ unescape s := by
  induction text with
  | nil => rfl
  | cons c text ih =>
    rw [escapeFor, List.flatMap_cons, List.append_assoc, unescape_escapeCharFor hquote c,
      ← escapeFor, ih, List.cons_append]

theorem head?_escapeFor_cons (c : Char) (text s : List Char) :
    (escapeFor quote (c :: text) ++ s).head? ≠ some quote := by
  rcases escapeCharFor_cases hquote c with ⟨d, hescape, -⟩ | ⟨hescape, hne, -⟩
  · simpa [escapeFor, hescape] using backslash_ne_quote hquote
  · simpa [escapeFor, hescape] using hne

/-- A text in single quote characters does not start with three of them. -/
theorem longString?_escapeFor {text : List Char} (hrest : rest.head? ≠ some quote) :
    longString? quote (quote :: (escapeFor quote text ++ quote :: rest)) = none := by
  apply longString?_of_word?_eq_none
  rw [word?_cons]
  cases text with
  | nil =>
    change ((word? [quote, quote] (quote :: rest)).map _) = none
    rw [word?_cons, word?_of_head hrest]
    rfl
  | cons c text =>
    rw [word?_of_head (head?_escapeFor_cons hquote c text _)]
    rfl

theorem string?_escapeFor {text : List Char} (hrest : rest.head? ≠ some quote) :
    ∃ hlt, string? (quote :: (escapeFor quote text ++ quote :: rest)) =
      some (text, ⟨rest, hlt⟩) := by
  obtain ⟨_, hbody⟩ : ∃ hlt, shortBody? quote (escapeFor quote text ++ quote :: rest) =
      some (escapeFor quote text, ⟨rest, hlt⟩) := shortBody?_escapeFor hquote text
  have hshort : shortString? quote (quote :: (escapeFor quote text ++ quote :: rest)) =
      some (escapeFor quote text,
        ⟨rest, by simp only [List.length_cons, List.length_append]; omega⟩) := by
    obtain ⟨_, hmark⟩ := mark?_of_eq (rfl : quote :: (escapeFor quote text ++ quote :: rest) = _)
    rw [shortString?, hmark]
    dsimp only
    rw [hbody]
    rfl
  have hunescape : unescape (escapeFor quote text) = text := by
    simpa [unescape] using unescape_escapeFor hquote text []
  refine ⟨by simp only [List.length_cons, List.length_append]; omega, ?_⟩
  rw [string?_of_head hquote rfl, longString?_escapeFor hquote hrest, hshort]
  simp [hunescape]

end Quotes

/-! ## Atoms -/

/-- A term as it is written, before its blank node is looked up. -/
def Atom.ofTerm : Term → Atom
  | .iri i => .reference (.bracketed i.text.toList)
  | .blank b => .label b.name
  | .literal l =>
    match l.type with
    | .typed datatype => .typed l.value.toList (.bracketed datatype.text.toList)
    | _ => .literal l

theorem isNameChar_of_mem_name {b : BlankNode} (hb : b.Writable) :
    ∀ c ∈ b.name, isNameChar c = true := by
  have hdigits : ∀ n, ∀ c ∈ decimal n, isNameChar c = true :=
    forall_mem_decimal isNameChar (by decide)
  intro c hc
  rw [BlankNode.name] at hc
  split at hc
  · rename_i label hlabel
    rcases List.mem_append.mp hc with hc | hc
    · exact hb label hlabel c hc
    · rcases List.mem_cons.mp hc with rfl | hc
      · decide
      · exact hdigits _ c hc
  · rcases List.mem_cons.mp hc with rfl | hc
    · decide
    · exact hdigits _ c hc

theorem name_ne_nil (b : BlankNode) : b.name ≠ [] := by
  rw [BlankNode.name]
  split
  · simp
  · simp

/-- What is written for the type of a literal after its closing quote. -/
def typeChars : LiteralType → List Char
  | .plain => []
  | .language tag => '@' :: tag.toList
  | .typed datatype => '^' :: '^' :: '<' :: (datatype.text.toList ++ ['>'])

theorem chars_append (l : Literal) (rest : List Char) :
    l.chars ++ rest = '"' :: (escape l.value.toList ++ '"' :: (typeChars l.type ++ rest)) := by
  rw [Literal.chars]
  cases l.type with
  | plain => simp [typeChars]
  | language tag => simp [typeChars]
  | typed datatype => simp [typeChars]

section Literals

variable {value more : List Char} {s : List Char}

theorem readLiteralType_plain (r : Shorter s) (hr : r.1 = ' ' :: more) :
    readLiteralType value r = .ok (.literal ⟨String.ofList value, .plain⟩, r) := by
  rw [readLiteralType, mark?_of_head (by rw [hr]; simp), word?_of_head (by rw [hr]; simp)]

theorem readLiteralType_language {tag : String} (hne : tag ≠ "")
    (htag : ∀ c ∈ tag.toList, isTagChar c = true) (hlower : lowercase tag = tag) (r : Shorter s)
    (hr : r.1 = '@' :: (tag.toList ++ ' ' :: more)) :
    ∃ hlt, readLiteralType value r =
      .ok (.literal ⟨String.ofList value, .language tag⟩, ⟨' ' :: more, hlt⟩) := by
  obtain ⟨_, hmark⟩ := mark?_of_eq hr
  have hempty : tag.toList ≠ [] := by simpa using hne
  have hblank : ∀ c ∈ (' ' :: more).head?, isTagChar c = false :=
    of_mem_head?_cons (by decide) more
  obtain ⟨_, hrun⟩ := run?_append hempty htag hblank
  have hlength := congrArg List.length hr
  have hr := r.2
  simp only [List.length_cons, List.length_append] at hlength
  refine ⟨by simp only [List.length_cons]; omega, ?_⟩
  rw [readLiteralType, hmark]
  dsimp only
  rw [show (fun c => isAlphanumeric c || c == '-') = isTagChar from rfl, hrun]
  simp only [Literal.withLanguage, String.ofList_toList, hlower]
  rfl

theorem readLiteralType_typed {datatype : Iri} (h : datatype.Writable) (r : Shorter s)
    (hr : r.1 = '^' :: '^' :: '<' :: (datatype.text.toList ++ '>' :: ' ' :: more)) :
    ∃ hlt, readLiteralType value r =
      .ok (.typed value (.bracketed datatype.text.toList), ⟨' ' :: more, hlt⟩) := by
  obtain ⟨_, href⟩ : ∃ hlt, reference? ('<' :: (datatype.text.toList ++ '>' :: ' ' :: more)) =
      some (datatype.text.toList, ⟨' ' :: more, hlt⟩) := reference?_brackets h
  obtain ⟨text, hlt⟩ := r
  obtain rfl : text = _ := hr
  simp only [List.length_cons, List.length_append] at hlt
  refine ⟨by simp only [List.length_cons]; omega, ?_⟩
  have hword : word? ['^', '^']
        ('^' :: '^' :: '<' :: (datatype.text.toList ++ '>' :: ' ' :: more)) =
      some ⟨'<' :: (datatype.text.toList ++ '>' :: ' ' :: more), by simp⟩ := rfl
  rw [readLiteralType, mark?_of_head (by simp)]
  dsimp only
  rw [hword]
  dsimp only
  rw [readReference?, href]
  rfl

theorem readLiteralType_typeChars {l : Literal} (hl : l.Writable) (r : Shorter s)
    (hr : r.1 = typeChars l.type ++ ' ' :: more) :
    ∃ hlt, readLiteralType l.value.toList r =
      .ok (.ofTerm (.literal l), ⟨' ' :: more, hlt⟩) := by
  obtain ⟨value, type⟩ := l
  have hvalue : String.ofList value.toList = value := String.ofList_toList
  cases type with
  | plain =>
    obtain ⟨text, hlt⟩ := r
    obtain rfl : text = ' ' :: more := hr
    refine ⟨hlt, ?_⟩
    rw [readLiteralType_plain _ rfl, hvalue]
    rfl
  | language tag =>
    obtain ⟨hne, htag, hlower⟩ := hl
    obtain ⟨hlt, hread⟩ := readLiteralType_language hne htag hlower r hr
    refine ⟨hlt, ?_⟩
    rw [hread, hvalue]
    rfl
  | typed datatype => exact readLiteralType_typed hl r (by simpa [typeChars] using hr)

end Literals

/-- A quoted text is read, and then what follows it decides about the literal. -/
theorem readAtom_quoted {value : List Char} {s : List Char} (hs : s.head? ≠ some '"') :
    ∃ hlt, readAtom ('"' :: (escape value ++ '"' :: s)) = readLiteralType value ⟨s, hlt⟩ := by
  obtain ⟨hlt, hstring⟩ : ∃ hlt, string? ('"' :: (escape value ++ '"' :: s)) =
      some (value, ⟨s, hlt⟩) := by
    rw [← escapeFor_double]
    exact string?_escapeFor (by decide) hs
  refine ⟨hlt, ?_⟩
  rw [readAtom, reference?_of_head (by simp)]
  rw [label?, word?_of_head (by simp)]
  simp only [startsQuoted, hstring]
  rfl

theorem readAtom_literal {l : Literal} (hl : l.Writable) (more : List Char) :
    ∃ hlt, readAtom (l.chars ++ ' ' :: more) = .ok (.ofTerm (.literal l), ⟨' ' :: more, hlt⟩) := by
  have hquote : (typeChars l.type ++ ' ' :: more).head? ≠ some '"' := by
    cases l.type with
    | plain => simp [typeChars]
    | language tag => simp [typeChars]
    | typed datatype => simp [typeChars]
  obtain ⟨hlt, hread⟩ : ∃ hlt,
      readAtom ('"' :: (escape l.value.toList ++ '"' :: (typeChars l.type ++ ' ' :: more))) =
        readLiteralType l.value.toList ⟨typeChars l.type ++ ' ' :: more, hlt⟩ :=
    readAtom_quoted hquote
  rw [chars_append, hread]
  exact readLiteralType_typeChars hl ⟨_, hlt⟩ rfl

/-- Started at a term, the reader of atoms reads the term and stops at the blank after it. -/
theorem readAtom_chars {t : Term} (ht : t.Writable) (more : List Char) :
    ∃ hlt, readAtom (t.chars ++ ' ' :: more) = .ok (.ofTerm t, ⟨' ' :: more, hlt⟩) := by
  cases t with
  | iri i =>
    obtain ⟨hlt, href⟩ : ∃ hlt, reference? ('<' :: (i.text.toList ++ '>' :: ' ' :: more)) =
        some (i.text.toList, ⟨' ' :: more, hlt⟩) := reference?_brackets ht
    have htext : (Term.iri i).chars ++ ' ' :: more =
        '<' :: (i.text.toList ++ '>' :: ' ' :: more) := by simp [Term.chars]
    rw [htext]
    refine ⟨hlt, ?_⟩
    rw [readAtom, href]
    rfl
  | blank b =>
    have hblank : ∀ c ∈ (' ' :: more).head?, isNameChar c = false :=
      of_mem_head?_cons (by decide) more
    obtain ⟨hlt, hlabel⟩ := label?_underscore (name_ne_nil b) (isNameChar_of_mem_name ht) hblank
    have htext : (Term.blank b).chars ++ ' ' :: more =
        '_' :: ':' :: (b.name ++ ' ' :: more) := by
      rw [Term.chars, BlankNode.chars_eq]
      rfl
    rw [htext]
    refine ⟨hlt, ?_⟩
    rw [readAtom, reference?_of_head (by simp), hlabel]
    rfl
  | literal l => exact readAtom_literal ht more

end Turtle

end GraphConformance
