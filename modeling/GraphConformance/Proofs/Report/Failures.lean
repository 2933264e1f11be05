import GraphConformance.Proofs.Evidence.Details
import GraphConformance.Proofs.Turtle.Tokens
import Mathlib.Data.List.Basic

/-!
# Reported failures can be told apart

What is written for a term determines the term (`Term.display_injective`). The first character tells
IRIs, literals and blank nodes apart. The value of a literal ends at the first quote character that
is not escaped, and what follows tells its type. A blank node ends in its number, and an underscore
stands before the number exactly if the node has a label.

What is reported for a failure determines the failure, with all causes and branches inside it
(`Failure.toJson_faithful`). The keys of a report are drawn, in order, from one list without
repetition, so an object determines the fields from which it is made (`Json.ofFields_inj`). From
there the induction is on the failures that a failure holds: the kind is read off its name, its
cause off a field and its branches, in order, off a list.
-/

set_option autoImplicit false

namespace GraphConformance

open Text Turtle

/-! ## Terms and what is written for them -/

/-- What stands between angle brackets is the reference of an IRI. -/
theorem Iri.eq_of_bracketed {i j : Iri}
    (h : '<' :: (i.text.toList ++ ['>']) = '<' :: (j.text.toList ++ ['>'])) : i = j := by
  rw [Iri.mk.injEq]
  exact String.toList_injective (List.append_cancel_right (List.cons.inj h).2)

namespace Literal

theorem escape_injective : Function.Injective escape := by
  intro v w h
  have hvalue : ∀ text, unescape (escape text) = text := by
    intro text
    rw [← escapeFor_double, ← List.append_nil (escapeFor '"' text),
      unescape_escapeFor (by decide), unescape, List.append_nil]
  rw [← hvalue v, h, hvalue w]

/-- A value ends at the first quote character that is not escaped. -/
theorem eq_of_escape_append {v w rest rest' : List Char}
    (h : escape v ++ '"' :: rest = escape w ++ '"' :: rest') : v = w ∧ rest = rest' := by
  -- reading a string finds the end of the value, in either way to write the same text
  have hbody : ∀ text rest s, s = escape text ++ '"' :: rest →
      ∃ hlt, shortBody? '"' s = some (escape text, ⟨rest, hlt⟩) := by
    rintro text rest _ rfl
    exact shortBody?_escapeFor (by decide) text
  obtain ⟨_, hv⟩ := hbody v rest _ rfl
  obtain ⟨_, hw⟩ := hbody w rest' _ h
  rw [hv, Option.some.injEq, Prod.mk.injEq, Subtype.mk.injEq] at hw
  exact ⟨escape_injective hw.1, hw.2⟩

theorem typeChars_injective : Function.Injective typeChars := by
  intro s t h
  cases s with
  | plain =>
    cases t with
    | plain => rfl
    | language _ => cases h
    | typed _ => cases h
  | language tag =>
    cases t with
    | plain => cases h
    | language tag' => rw [String.toList_injective (List.cons.inj h).2]
    | typed _ => exact absurd (List.cons.inj h).1 (by decide)
  | typed datatype =>
    cases t with
    | plain => cases h
    | language _ => exact absurd (List.cons.inj h).1 (by decide)
    | typed datatype' =>
      rw [Iri.eq_of_bracketed (List.cons.inj (List.cons.inj h).2).2]

theorem chars_injective : Function.Injective chars := by
  intro l m h
  have hchars : ∀ l : Literal,
      l.chars = '"' :: (escape l.value.toList ++ '"' :: typeChars l.type) := by
    intro l
    simpa using chars_append l []
  rw [hchars, hchars] at h
  obtain ⟨hvalue, htype⟩ := eq_of_escape_append (List.cons.inj h).2
  rw [Literal.mk.injEq]
  exact ⟨String.toList_injective hvalue, typeChars_injective htype⟩

end Literal

theorem BlankNode.chars_injective : Function.Injective BlankNode.chars := by
  intro a b h
  rw [chars_eq, chars_eq] at h
  exact name_injective (List.cons.inj (List.cons.inj h).2).2

namespace Term

/-- The first character of what is written for a term. -/
def mark : Term → Char
  | .iri _ => '<'
  | .literal _ => '"'
  | .blank _ => '_'

theorem head?_chars (t : Term) : t.chars.head? = some t.mark := by
  cases t with
  | iri i => rfl
  | literal l =>
    have hhead := congrArg List.head? (chars_append l [])
    rwa [List.append_nil] at hhead
  | blank b => exact congrArg List.head? b.chars_eq

theorem chars_injective : Function.Injective Term.chars := by
  intro t u h
  have hmark : t.mark = u.mark := by
    rw [← Option.some.injEq, ← head?_chars, ← head?_chars, h]
  cases t with
  | iri i =>
    cases u with
    | iri j => rw [Iri.eq_of_bracketed h]
    | literal _ => simp [mark] at hmark
    | blank _ => simp [mark] at hmark
  | literal l =>
    cases u with
    | iri _ => simp [mark] at hmark
    | literal m => rw [Literal.chars_injective h]
    | blank _ => simp [mark] at hmark
  | blank a =>
    cases u with
    | iri _ => simp [mark] at hmark
    | literal _ => simp [mark] at hmark
    | blank b => rw [BlankNode.chars_injective h]

theorem display_injective : Function.Injective Term.display :=
  fun _ _ h => chars_injective (String.ofList_injective h)

end Term

/-! ## Objects and their fields -/

namespace Json

variable {fields fields' : List (String × Json)} {key k : String}

theorem lookup_cons_ite (value : Json) :
    ((key, value) :: fields).lookup k = if k = key then some value else fields.lookup k := by
  by_cases hk : k = key
  · rw [if_pos hk, hk, List.lookup_cons_self]
  · rw [if_neg hk, List.lookup_cons, beq_false_of_ne hk]

theorem lookup_eq_none (h : k ∉ fields.map Prod.fst) : fields.lookup k = none := by
  rw [List.lookup_eq_none_iff]
  intro field hfield
  simpa using fun hk : k = field.1 => h (hk ▸ List.mem_map_of_mem hfield)

theorem lookup_putField (value : Json) : (putField key value fields).lookup k =
    if k = key then some value else fields.lookup k := by
  induction fields with
  | nil => exact lookup_cons_ite value
  | cons field fields ih =>
    obtain ⟨first, v⟩ := field
    rw [putField]
    split
    · exact lookup_cons_ite value
    · split
      · rename_i heq
        simp only [lookup_cons_ite, heq]
        split <;> rfl
      · rename_i hne
        simp only [lookup_cons_ite, ih]
        split
        · rename_i hfirst
          rw [if_neg (hfirst ▸ Ne.symm hne)]
        · rfl

/-- Fields with different keys are found in the object that is made from them. -/
theorem lookup_foldl_putField (hkeys : (fields.map Prod.fst).Nodup)
    (sorted : List (String × Json)) :
    (fields.foldl (fun sorted field => putField field.1 field.2 sorted) sorted).lookup k =
      (fields.lookup k).or (sorted.lookup k) := by
  induction fields generalizing sorted with
  | nil => rfl
  | cons field fields ih =>
    obtain ⟨hkey, hkeys⟩ := List.nodup_cons.mp hkeys
    rw [List.foldl_cons, ih hkeys, lookup_putField, lookup_cons_ite]
    split
    · rename_i hk
      subst hk
      rw [lookup_eq_none hkey]
      rfl
    · rfl

/-- Fields whose keys are drawn in order from a list without repetition are what is found under the
keys of that list. -/
theorem eq_filterMap_lookup {keys : List String} (hkeys : keys.Nodup)
    (h : (fields.map Prod.fst).Sublist keys) :
    fields = keys.filterMap fun k => (fields.lookup k).map fun value => (k, value) := by
  -- the first key of the list is that of the first field, or of no field
  induction keys generalizing fields with
  | nil => exact List.map_eq_nil_iff.mp (List.sublist_nil.mp h)
  | cons key keys ih =>
    obtain ⟨hkey, hkeys⟩ := List.nodup_cons.mp hkeys
    rw [List.filterMap_cons]
    rcases List.sublist_cons_iff.mp h with hrest | ⟨rest, hmap, hrest⟩
    · rw [lookup_eq_none fun hmem => hkey (hrest.subset hmem)]
      exact ih hkeys hrest
    · obtain ⟨⟨first, value⟩, fields, rfl, hfirst, rfl⟩ := List.map_eq_cons_iff.mp hmap
      obtain rfl : key = first := hfirst.symm
      have hothers : ∀ k ∈ keys, ((key, value) :: fields).lookup k = fields.lookup k := by
        intro k hk
        rw [lookup_cons_ite, if_neg (ne_of_mem_of_not_mem hk hkey)]
      rw [lookup_cons_ite, if_pos rfl]
      refine congrArg ((key, value) :: ·) ((ih hkeys hrest).trans ?_)
      exact List.filterMap_congr fun k hk => by rw [hothers k hk]

/-- An object determines the fields from which it is made, if their keys are drawn in order from a
list without repetition. -/
theorem ofFields_inj {keys : List String} (hkeys : keys.Nodup)
    (h : (fields.map Prod.fst).Sublist keys) (h' : (fields'.map Prod.fst).Sublist keys)
    (heq : ofFields fields = ofFields fields') : fields = fields' := by
  have hlookup : ∀ k, fields.lookup k = fields'.lookup k := by
    intro k
    have hfound := congrArg (List.lookup k) (Json.object.inj heq)
    simpa only [lookup_foldl_putField (h.nodup hkeys), lookup_foldl_putField (h'.nodup hkeys),
      List.lookup_nil, Option.or_none] using hfound
  calc fields
      = keys.filterMap fun k => (fields.lookup k).map fun value => (k, value) :=
        eq_filterMap_lookup hkeys h
    _ = keys.filterMap fun k => (fields'.lookup k).map fun value => (k, value) := by
        simp only [hlookup]
    _ = fields' := (eq_filterMap_lookup hkeys h').symm

theorem nat_injective : Function.Injective Json.nat :=
  fun _ _ h => decimal_injective (String.ofList_injective (Json.number.inj h))

end Json

/-! ## Kinds and their names -/

theorem Stage.name_injective : Function.Injective Stage.name := by
  intro s t h
  cases s <;> cases t <;> simp_all [name]

theorem Restriction.name_injective : Function.Injective Restriction.name := by
  intro s t h
  cases s <;> cases t <;> simp_all [name]

/-- Kinds of one name are equal, or both are violations, unions or inconsistencies. -/
theorem FailureKind.eq_of_name {φ : Type} {k k' : FailureKind φ} (h : k.name = k'.name) :
    k = k' ∨
    (∃ restriction restriction' property property' expected expected' observed observed' cause
        cause', k = .restrictionViolation restriction property expected observed cause ∧
      k' = .restrictionViolation restriction' property' expected' observed' cause') ∨
    (∃ branches branches', k = .unionExhausted branches ∧ k' = .unionExhausted branches') ∨
    ∃ reason reason', k = .inconsistent reason ∧ k' = .inconsistent reason' := by
  cases k <;> cases k' <;> simp_all [name]

/-! ## Failures and what is reported for them -/

namespace Failure

open Json

variable {f g : Failure}

/-- A failure is larger than those it holds. -/
theorem sizeOf_lt_of_mem_parts (h : g ∈ f.parts) : sizeOf g < sizeOf f := by
  obtain ⟨stage, kind, individual, inClass, explanation⟩ := f
  cases kind with
  | restrictionViolation restriction property expected observed cause =>
    obtain rfl : cause = some g := Option.mem_toList.mp h
    simp only [mk.sizeOf_spec, FailureKind.restrictionViolation.sizeOf_spec,
      Option.some.sizeOf_spec]
    omega
  | unionExhausted branches =>
    have hbranch : sizeOf g < sizeOf branches := List.sizeOf_lt_of_mem h
    simp only [mk.sizeOf_spec, FailureKind.unionExhausted.sizeOf_spec]
    omega
  | _ => cases h

/-- The keys of what a kind adds to a report, in order. -/
def kindKeys : List String :=
  ["restriction", "property", "expected", "observed", "cause", "branches", "reason"]

/-- The keys of a report, in order. -/
def keys : List String := ["stage", "kind", "explanation", "individual", "class"] ++ kindKeys

/-- The fields of a report. -/
def fields (f : Failure) : List (String × Json) :=
  [("stage", .string f.stage.name), ("kind", .string f.kind.name),
    ("explanation", .string f.explanation)] ++ termField "individual" f.individual ++
    termField "class" f.inClass ++ kindFields f.kind

theorem toJson_eq (f : Failure) : f.toJson = ofFields f.fields := by
  cases f
  rw [toJson]
  rfl

theorem sublist_kindKeys (k : FailureKind Failure) :
    ((kindFields k).map Prod.fst).Sublist kindKeys := by
  cases k with
  | restrictionViolation restriction property expected observed cause =>
    cases cause with
    | none =>
      exact (by decide : ["restriction", "property", "expected", "observed"].Sublist kindKeys)
    | some cause =>
      exact (by decide :
        ["restriction", "property", "expected", "observed", "cause"].Sublist kindKeys)
  | unionExhausted branches => exact (by decide : ["branches"].Sublist kindKeys)
  | inconsistent reason => exact (by decide : ["reason"].Sublist kindKeys)
  | _ => exact List.nil_sublist _

theorem sublist_termField (key : String) (t : Option Term) :
    ((termField key t).map Prod.fst).Sublist [key] := by
  cases t with
  | none => exact List.nil_sublist _
  | some t => exact List.Sublist.refl _

theorem sublist_keys (f : Failure) : (f.fields.map Prod.fst).Sublist keys := by
  rw [fields, List.map_append, List.map_append, List.map_append]
  exact (((List.Sublist.refl _).append (sublist_termField _ _)).append
    (sublist_termField _ _)).append (sublist_kindKeys _)

/-- A report determines its fields. -/
theorem fields_eq_of_toJson_eq (h : f.toJson = g.toJson) : f.fields = g.fields := by
  have hnodup : keys.Nodup := by decide
  rw [toJson_eq, toJson_eq] at h
  exact ofFields_inj hnodup f.sublist_keys g.sublist_keys h

/-- A field for a term that stands in front of fields with other keys determines the term. -/
theorem eq_of_termField_append {key : String} {others : List String} (hkey : key ∉ others)
    {t t' : Option Term} {rest rest' : List (String × Json)}
    (hrest : (rest.map Prod.fst).Sublist others) (hrest' : (rest'.map Prod.fst).Sublist others)
    (h : termField key t ++ rest = termField key t' ++ rest') : t = t' ∧ rest = rest' := by
  cases t with
  | none =>
    cases t' with
    | none => exact ⟨rfl, h⟩
    | some u =>
      obtain rfl : rest = _ :: rest' := h
      exact absurd (hrest.subset List.mem_cons_self) hkey
  | some t =>
    cases t' with
    | none =>
      obtain rfl : _ :: rest = rest' := h
      exact absurd (hrest'.subset List.mem_cons_self) hkey
    | some u =>
      obtain ⟨hfield, hrest⟩ := List.cons.inj h
      rw [Term.display_injective (Json.string.inj (Prod.mk.inj hfield).2)]
      exact ⟨rfl, hrest⟩

/-- Equal reports agree in all that they list. -/
theorem agree_of_toJson_eq (h : f.toJson = g.toJson) :
    f.stage = g.stage ∧ f.kind.name = g.kind.name ∧ f.explanation = g.explanation ∧
      f.individual = g.individual ∧ f.inClass = g.inClass ∧
      kindFields f.kind = kindFields g.kind := by
  have hfields := fields_eq_of_toJson_eq h
  simp only [fields, List.append_assoc, List.cons_append, List.nil_append, List.cons.injEq,
    Prod.mk.injEq, Json.string.injEq, true_and] at hfields
  obtain ⟨hstage, hname, hexplanation, hterms⟩ := hfields
  -- a term's field has a key of its own, so it is told from the fields behind it
  have hclassKeys : ∀ f : Failure, ((termField "class" f.inClass ++ kindFields f.kind).map
      Prod.fst).Sublist ("class" :: kindKeys) := by
    intro f
    rw [List.map_append]
    exact (sublist_termField "class" f.inClass).append (sublist_kindKeys f.kind)
  obtain ⟨hindividual, hclass⟩ :=
    eq_of_termField_append (by decide) (hclassKeys f) (hclassKeys g) hterms
  obtain ⟨hclass, hkind⟩ :=
    eq_of_termField_append (by decide) (sublist_kindKeys _) (sublist_kindKeys _) hclass
  exact ⟨Stage.name_injective hstage, hname, hexplanation, hindividual, hclass, hkind⟩

/-- A cause that is told apart is told apart by its field. -/
theorem eq_of_causeFields_eq {cause cause' : Option Failure}
    (h : ∀ f ∈ cause.toList, ∀ g : Failure, f.toJson = g.toJson → f = g)
    (hfields : causeFields cause = causeFields cause') : cause = cause' := by
  cases cause with
  | none =>
    cases cause' with
    | none => rfl
    | some g => cases hfields
  | some f =>
    cases cause' with
    | none => cases hfields
    | some g =>
      have hcause : f.toJson = g.toJson := (Prod.mk.inj (List.cons.inj hfields).1).2
      rw [h f (List.mem_singleton_self f) g hcause]

theorem branchesJson_eq_map (branches : List Failure) :
    branchesJson branches = branches.map toJson := by
  induction branches with
  | nil => rfl
  | cons branch branches ih => rw [branchesJson, ih, List.map_cons]

/-- Branches that are told apart one by one are told apart by their list. -/
theorem eq_of_map_toJson_eq {branches branches' : List Failure}
    (h : ∀ f ∈ branches, ∀ g : Failure, f.toJson = g.toJson → f = g)
    (hmap : branches.map toJson = branches'.map toJson) : branches = branches' := by
  induction branches generalizing branches' with
  | nil => exact (List.map_eq_nil_iff.mp hmap.symm).symm
  | cons branch branches ih =>
    obtain ⟨branch', branches', rfl, hbranch, hrest⟩ := List.map_eq_cons_iff.mp hmap.symm
    obtain ⟨hfirst, hothers⟩ := List.forall_mem_cons.mp h
    rw [hfirst branch' hbranch.symm, ih hothers hrest.symm]

/-- A kind is determined by its name and by what it adds to a report, if the failures that it holds
are determined by their reports. -/
theorem kind_eq_of_kindFields_eq (hparts : ∀ part ∈ f.parts, ∀ g : Failure,
    part.toJson = g.toJson → part = g) (hname : f.kind.name = g.kind.name)
    (h : kindFields f.kind = kindFields g.kind) : f.kind = g.kind := by
  rw [parts] at hparts
  rcases FailureKind.eq_of_name hname with heq | ⟨restriction, restriction', property, property',
    expected, expected', observed, observed', cause, cause', hf, hg⟩ |
    ⟨branches, branches', hf, hg⟩ | ⟨reason, reason', hf, hg⟩
  · exact heq
  · rw [hf] at h hparts ⊢
    rw [hg] at h ⊢
    simp only [kindFields, List.cons_append, List.nil_append, List.cons.injEq, Prod.mk.injEq,
      Json.string.injEq, true_and] at h
    obtain ⟨hrestriction, hproperty, hexpected, hobserved, hcause⟩ := h
    rw [Restriction.name_injective hrestriction, Term.display_injective hproperty,
      nat_injective hexpected, nat_injective hobserved, eq_of_causeFields_eq hparts hcause]
  · rw [hf] at h hparts ⊢
    rw [hg] at h ⊢
    simp only [kindFields, branchesJson_eq_map, List.cons.injEq, Prod.mk.injEq, Json.array.injEq,
      true_and, and_true] at h
    have hbranches : branches = branches' := eq_of_map_toJson_eq hparts h
    rw [hbranches]
  · rw [hf] at h ⊢
    rw [hg] at h ⊢
    simp only [kindFields, List.cons.injEq, Prod.mk.injEq, Json.string.injEq, true_and,
      and_true] at h
    rw [h]

/-- A failure is determined by its report if the failures that it holds are. -/
theorem eq_of_toJson_eq (hparts : ∀ part ∈ f.parts, ∀ g : Failure,
    part.toJson = g.toJson → part = g) (h : f.toJson = g.toJson) : f = g := by
  obtain ⟨hstage, hname, hexplanation, hindividual, hclass, hfields⟩ := agree_of_toJson_eq h
  have hkind := kind_eq_of_kindFields_eq hparts hname hfields
  cases f
  cases g
  rw [Failure.mk.injEq]
  exact ⟨hstage, hkind, hindividual, hclass, hexplanation⟩

/-- A failure, with all causes and branches inside it, is determined by its report. -/
theorem toJson_injective (f : Failure) : ∀ g : Failure, f.toJson = g.toJson → f = g := by
  -- the induction is on the size: a failure is larger than those that it holds
  intro g
  exact eq_of_toJson_eq fun part hpart => toJson_injective part
termination_by sizeOf f
decreasing_by exact sizeOf_lt_of_mem_parts hpart

/-- **Reported failures are faithful.** Failures with equal reports are equal in stage, kind with
all its data, individual, class and explanation, and so are the causes and branches inside them,
however deep they are nested; and terms that are written alike are equal. Equal nodes have the same
number and the same label. -/
theorem toJson_faithful : Function.Injective toJson ∧ Function.Injective Term.display :=
  ⟨toJson_injective, Term.display_injective⟩

end Failure

end GraphConformance
