import GraphConformance.Profile
import GraphConformance.Proofs.Evidence.Agreement
import GraphConformance.Proofs.Knowledge.Closure
import GraphConformance.Proofs.Knowledge.Derivation
import GraphConformance.Proofs.Knowledge.Questions

/-!
# Anonymous types

A node that stands in an axiom is read by the form that it declares, but as a type of an individual
it is the class of the node, whatever it declares. Where no anonymous type declares a form, this is
the same (`typeParts_eq_typeReadings`). Otherwise an individual that is to belong to the type
profile has to be a member of the node itself, unless the node has a told equivalent
(`isMember_of_translate_typeProfile`).
-/

set_option autoImplicit false

namespace GraphConformance

open Vocabulary Evidence

variable {k : Knowledge} {x : Term}

/-! ## A part that fails -/

namespace Evidence

/-- One question that fails with every memory of a kind lets all of them fail together, if each of
them keeps the kind. -/
theorem findAll_eq_none {ι : Type} {I : Memo → Prop} {f : ι → Recall Finding} {is : List ι} {i : ι}
    (hI : ∀ j ∈ is, ∀ m, I m → I (f j m).2) (hi : i ∈ is) (hnone : ∀ m, I m → (f i m).1 = none)
    {m : Memo} (hm : I m) : (findAll (is.map f) m).1 = none := by
  induction is generalizing m with
  | nil => exact absurd hi (by simp)
  | cons j is ih =>
    rw [List.map_cons, findAll, bind_apply]
    cases hj : (f j m).1 with
    | none => rfl
    | some found =>
      have hrest : i ∈ is := by
        rcases List.mem_cons.mp hi with rfl | hi
        · exact absurd ((hnone m hm).symm.trans hj) (by simp)
        · exact hi
      have hlast := ih (fun l hl => hI l (List.mem_cons_of_mem _ hl)) hrest
        (hI j List.mem_cons_self m hm)
      dsimp only
      rw [bind_apply, hlast]
      rfl

/-- An intersection fails on a new translator when one of its parts fails by closed-world
evaluation, whatever the others come to. -/
theorem toOption_translate_conj_eq_none {parts : List Expression} {e : Expression} (he : e ∈ parts)
    (h : k.reasoner.closedWorld e x = some none) :
    (Translator.new.translate k.reasoner (.conj parts) x).1.toOption = none := by
  have hdepth := k.suffices_start x
  have hempty : Memo.empty.Faithful k.reasoner ∅ := Memo.Keeps.empty
  show (outcome (translateWithin k.reasoner k.reasoner.definedPairs .empty (.conj parts) x)
    .empty).1 = none
  cases hconj : k.reasoner.closedWorld (.conj parts) x with
  | some finding =>
    -- evaluated without memory, the intersection fails by the part
    have hfollows := follows_closedWorld hconj .empty hdepth List.mem_cons_self (by simp) hempty
    rw [hfollows.finding_eq]
    have hrules := (Knowledge.Evaluates.of_closedWorld hconj).unique
      (.conj_none he (Knowledge.Evaluates.of_closedWorld h))
    exact Option.map_eq_none_iff.mp hrules
  | none =>
    obtain ⟨work, hwork, hround⟩ :=
      translateWithin_eq k.reasoner k.reasoner.definedPairs .empty (.conj parts) x
    rw [hwork, outcome, memoised_of_none (Memo.known_empty _)]
    -- while only the intersection is in progress, each part leaves the memory faithful
    obtain ⟨S, hS⟩ : ∃ S : Finset (Expression × Term), S = insert (.conj parts, x) ∅ := ⟨_, rfl⟩
    have hstart := hempty.start (.conj parts, x)
    have hsuffices := hdepth.insert (.conj parts, x)
    rw [← hS] at hstart hsuffices
    have hpending : ∀ p ∈ S, k.reasoner.closedWorld p.1 p.2 = none := by
      intro p hp
      obtain rfl : p = (.conj parts, x) := by simpa [hS] using hp
      exact hconj
    have hkept : ∀ e' ∈ parts, ∀ m : Memo, m.Faithful k.reasoner S →
        (outcome (translateWithin k.reasoner k.reasoner.definedPairs .empty e' x) m).2.Faithful
          k.reasoner S := by
      intro e' _ m hm
      have hsame : m.Alike m k.reasoner S ∅ := ⟨hm, hm, fun _ _ => rfl⟩
      exact (alike_translateWithin k.reasoner.definedPairs e' x .empty hsuffices
        List.mem_cons_self hpending hsame (by simp)).2.left
    have hfails : ∀ m : Memo, m.Faithful k.reasoner S →
        (outcome (translateWithin k.reasoner k.reasoner.definedPairs .empty e x) m).1 = none := by
      intro m hm
      exact (follows_closedWorld h .empty hsuffices List.mem_cons_self hpending hm).finding_eq
    show (outcome work _).1 = none
    rw [hround]
    exact findAll_eq_none hkept he hfails hstart

/-- So does an intersection from which what is repeated or holds of everything was dropped. -/
theorem toOption_translate_meet_eq_none {parts : List Expression} {e : Expression} (he : e ∈ parts)
    (h : k.reasoner.closedWorld e x = some none) :
    (Translator.new.translate k.reasoner (.meet parts) x).1.toOption = none := by
  have hkept : e ∈ Distinct.dedup (parts.filter (!·.isTop)) := by
    refine Distinct.mem_dedup.mpr (List.mem_filter.mpr ⟨he, ?_⟩)
    cases e with
    | top =>
      have hrules := (Knowledge.Evaluates.of_closedWorld h).unique .top
      exact absurd hrules (by simp [Finding.statements])
    | _ => rfl
  rw [Expression.meet]
  split
  · rename_i hnil
    rw [hnil] at hkept
    exact absurd hkept (by simp)
  · rename_i part hpart
    rw [hpart, List.mem_singleton] at hkept
    subst hkept
    have hempty : Memo.empty.Faithful k.reasoner ∅ := Memo.Keeps.empty
    exact (follows_closedWorld h .empty (k.suffices_start x) List.mem_cons_self (by simp)
      hempty).finding_eq
  · exact toOption_translate_conj_eq_none hkept h

end Evidence

/-! ## Types that are nodes -/

namespace Knowledge

/-- What a type is read as, unless it is a literal or describes structure. -/
def readType? (k : Knowledge) : Term → Option Expression
  | .iri i => if Vocabulary.isReserved i then none else some (k.store.expression (.iri i))
  | .blank b => some (k.store.expression (.blank b))
  | .literal _ => none

/-- What the types of an individual are read as, but for a type that is the individual. -/
def typeReadings (k : Knowledge) (individual : Term) : List Expression :=
  ((k.store.types individual).filter (· ≠ individual)).filterMap k.readType?

theorem typeProfile_eq_ok_iff {t : Term} {profile : Expression} :
    k.typeProfile t = .ok profile ↔
      k.store.mentions t = true ∧ .meet (typeParts t (k.store.types t)) = profile := by
  rw [typeProfile, bind_eq_ok_iff]
  constructor
  · rintro ⟨types, htypes, h⟩
    obtain ⟨hmentioned, rfl⟩ := ifMentioned_eq_ok_iff.mp htypes
    exact ⟨hmentioned, Except.ok.inj h⟩
  · rintro ⟨hmentioned, rfl⟩
    exact ⟨_, ifMentioned_eq_ok_iff.mpr ⟨hmentioned, rfl⟩, rfl⟩

/-- Where no anonymous type declares a form, each type is read as it stands in the profile. -/
theorem typeParts_eq_typeReadings {t : Term}
    (h : ∀ b, .blank b ∈ k.store.types t → .blank b ≠ t → k.store.form? (.blank b) = none) :
    typeParts t (k.store.types t) = k.typeReadings t := by
  rw [typeParts, typeReadings]
  apply List.filterMap_congr
  intro c hc
  obtain ⟨hmem, hne⟩ := List.mem_filter.mp hc
  cases c with
  | iri i => rw [Term.typeExpression?, readType?, Store.expression, Store.readExpression_iri]
  | literal l => rfl
  | blank b =>
    rw [Term.typeExpression?, readType?, Store.expression,
      Store.readExpression_of_form?_eq_none (h b hmem (by simpa using hne))]

/-- An anonymous type stands in the profile as the class of its node. -/
theorem concept_mem_typeParts {t : Term} {b : BlankNode} (hb : .blank b ∈ k.store.types t)
    (hne : .blank b ≠ t) : .concept (.blank b) ∈ typeParts t (k.store.types t) :=
  List.mem_filterMap.mpr ⟨.blank b, List.mem_filter.mpr ⟨hb, by simpa using hne⟩, rfl⟩

/-- Who is no member of a class without told equivalents fails there. -/
theorem closedWorld_concept_eq_none {c : Term} (hx : x.isIndividual = true)
    (hequivalents : k.store.equivalentClasses c = []) (h : ¬ k.IsMember x c) :
    k.reasoner.closedWorld (.concept c) x = some none := by
  apply Reasoner.closedWorld_of_round
  show k.reasoner.inClass _ c x = some none
  by_cases hm : k.store.mentions x = true
  · rw [inClass_of_mentions hx hm, if_pos ⟨h, hequivalents⟩]
  · exact inClass_of_not_mentions hx (by simpa using hm)

/-- No literal belongs to the class of a node. -/
theorem closedWorld_blank_literal (b : BlankNode) (l : Literal) :
    k.reasoner.closedWorld (.concept (.blank b)) (.literal l) = some none :=
  Reasoner.closedWorld_of_round rfl

/-- Whatever an anonymous type declares, only members of its node belong to the type profile. -/
theorem isMember_of_translate_typeProfile {t : Term} {profile : Expression} {found : List Triple}
    (hprofile : k.typeProfile t = .ok profile)
    (h : (Translator.new.translate k.reasoner profile x).1 = .ok found) {b : BlankNode}
    (hb : .blank b ∈ k.store.types t) (hne : .blank b ≠ t)
    (hequivalents : k.store.equivalentClasses (.blank b) = []) : k.IsMember x (.blank b) := by
  by_contra hmember
  have hclosed : k.reasoner.closedWorld (.concept (.blank b)) x = some none := by
    by_cases hx : x.isIndividual = true
    · exact closedWorld_concept_eq_none hx hequivalents hmember
    · obtain ⟨l, rfl⟩ := Term.exists_literal (by simpa using hx)
      exact closedWorld_blank_literal b l
  obtain ⟨-, rfl⟩ := typeProfile_eq_ok_iff.mp hprofile
  have hnone := toOption_translate_meet_eq_none (concept_mem_typeParts hb hne) hclosed
  rw [h] at hnone
  exact absurd hnone (by simp [Except.toOption])

end Knowledge

/-- The type profile of an individual is the intersection of what its types are read as when no
anonymous one declares a form. But whoever belongs to the profile is a member of the node of each
anonymous type without told equivalents, whether or not the node declares a form that fits. -/
theorem translate_typeProfile (k : Knowledge) (t : Term) (profile : Expression)
    (hprofile : k.typeProfile t = .ok profile) :
    ((∀ b, .blank b ∈ k.store.types t → .blank b ≠ t → k.store.form? (.blank b) = none) →
      profile = .meet (k.typeReadings t)) ∧
    ∀ x found, (Translator.new.translate k.reasoner profile x).1 = .ok found →
      ∀ b, .blank b ∈ k.store.types t → .blank b ≠ t →
        k.store.equivalentClasses (.blank b) = [] → k.IsMember x (.blank b) := by
  constructor
  · intro h
    obtain ⟨-, rfl⟩ := Knowledge.typeProfile_eq_ok_iff.mp hprofile
    rw [Knowledge.typeParts_eq_typeReadings h]
  · intro x found h b hb hne hequivalents
    exact Knowledge.isMember_of_translate_typeProfile hprofile h hb hne hequivalents

/-! ### A union as a type

The type of t is the union of A and B, and x is a B. Nothing is said of the other node, which is the
type of u and of y. -/

namespace UnionType

def triples : List Triple :=
  [⟨.iri ⟨"t"⟩, .iri Rdf.type, .blank ⟨0, none⟩⟩,
    ⟨.blank ⟨0, none⟩, .iri Owl.unionOf, .blank ⟨1, none⟩⟩,
    ⟨.blank ⟨1, none⟩, .iri Rdf.first, .iri ⟨"A"⟩⟩,
    ⟨.blank ⟨1, none⟩, .iri Rdf.rest, .blank ⟨2, none⟩⟩,
    ⟨.blank ⟨2, none⟩, .iri Rdf.first, .iri ⟨"B"⟩⟩,
    ⟨.blank ⟨2, none⟩, .iri Rdf.rest, .iri Rdf.nil⟩,
    ⟨.iri ⟨"x"⟩, .iri Rdf.type, .iri ⟨"B"⟩⟩,
    ⟨.iri ⟨"u"⟩, .iri Rdf.type, .blank ⟨3, none⟩⟩, ⟨.iri ⟨"y"⟩, .iri Rdf.type, .blank ⟨3, none⟩⟩]

def knowledge : Knowledge := ⟨.ofList triples, 2⟩

/-- What the type of t is read as. -/
def union : Expression := .disj [.concept (.iri ⟨"A"⟩), .concept (.iri ⟨"B"⟩)]

theorem expression_node : knowledge.store.expression (.blank ⟨0, none⟩) = union := by
  have hitems : knowledge.store.listItems (.blank ⟨1, none⟩) = [.iri ⟨"A"⟩, .iri ⟨"B"⟩] := by
    have hfirst : knowledge.store.object? (.blank ⟨1, none⟩) Rdf.first = some (.iri ⟨"A"⟩) := rfl
    have hrest : knowledge.store.object? (.blank ⟨1, none⟩) Rdf.rest =
        some (.blank ⟨2, none⟩) := rfl
    have hfirst' : knowledge.store.object? (.blank ⟨2, none⟩) Rdf.first = some (.iri ⟨"B"⟩) := rfl
    have hrest' : knowledge.store.object? (.blank ⟨2, none⟩) Rdf.rest = some (.iri Rdf.nil) := rfl
    rw [Store.listItems, Store.listFrom_of_not_end (by decide), hfirst, hrest, Option.elim_some,
      Option.elim_some, Store.listFrom_of_not_end (by decide), hfirst', hrest', Option.elim_some,
      Option.elim_some, Store.listFrom, dif_pos (Or.inl rfl)]
  have hform : knowledge.store.form? (.blank ⟨0, none⟩) =
      some (.union [.iri ⟨"A"⟩, .iri ⟨"B"⟩]) := by
    have hintersection : knowledge.store.object? (.blank ⟨0, none⟩) Owl.intersectionOf = none := rfl
    have hunion : knowledge.store.object? (.blank ⟨0, none⟩) Owl.unionOf =
        some (.blank ⟨1, none⟩) := rfl
    simp only [Store.form?, hintersection, hunion, hitems]
  rw [Store.expression, Store.readExpression_of_form? (by simp) hform, NodeForm.toExpression,
    List.map_cons, List.map_singleton, Store.readExpression_iri, Store.readExpression_iri]
  decide

theorem typeReadings_t : knowledge.typeReadings (.iri ⟨"t"⟩) = [union] := by
  have htypes : knowledge.store.types (.iri ⟨"t"⟩) = [.blank ⟨0, none⟩] := by decide
  rw [Knowledge.typeReadings, htypes, ← expression_node]
  rfl

theorem typeProfile_t :
    knowledge.typeProfile (.iri ⟨"t"⟩) = .ok (.concept (.blank ⟨0, none⟩)) := rfl

/-- The classes that x is asked about besides its own. -/
def others : List Term := [.iri ⟨"A"⟩, .blank ⟨0, none⟩]

/-- Nothing is told of B that would make it one of the other classes. -/
theorem subsumes_B : ∀ c ∈ others,
    knowledge.subsumes (.concept (.iri ⟨"B"⟩)) (.concept c) = false := by
  intro c hc
  have hne : c ≠ .iri ⟨"B"⟩ := by
    rintro rfl
    exact absurd hc (by decide)
  have hsupers : knowledge.store.toldSupers (.iri ⟨"B"⟩) = [.iri ⟨"B"⟩] :=
    Store.toldSupers_eq_singleton rfl
  have hequivalents : ∀ c ∈ others, knowledge.store.equivalentClasses c = [] := by decide
  have htold : knowledge.store.superClasses (.iri ⟨"B"⟩) ++
      knowledge.store.equivalentClasses (.iri ⟨"B"⟩) = [] := rfl
  rw [← Bool.not_eq_true, Knowledge.subsumes, Store.subsumes, Store.entails_succ_iff,
    Store.step_concept_iff, hsupers, hequivalents c hc, htold, Store.holdsAnyway_iff]
  simp [hne, hne.symm]

/-- The same reasoner, with the answers about the other classes given. -/
def reasoner : Reasoner :=
  { knowledge.reasoner with
    subsumes := fun sub sup =>
      if sub = .concept (.iri ⟨"B"⟩) ∧ sup ∈ others.map .concept then false
      else knowledge.subsumes sub sup }

theorem reasoner_eq : knowledge.reasoner = reasoner := by
  have hsubsumes : knowledge.subsumes = reasoner.subsumes := by
    funext sub sup
    dsimp only [reasoner]
    split
    · rename_i h
      obtain ⟨rfl, h⟩ := h
      obtain ⟨c, hc, rfl⟩ := List.mem_map.mp h
      exact subsumes_B c hc
    · rfl
  rw [Knowledge.reasoner, hsubsumes]
  rfl

theorem toOption_translate_node :
    (Translator.new.translate knowledge.reasoner (.concept (.blank ⟨0, none⟩))
      (.iri ⟨"x"⟩)).1.toOption = none := by
  rw [reasoner_eq]
  rfl

theorem toOption_translate_union :
    (Translator.new.translate knowledge.reasoner union (.iri ⟨"x"⟩)).1.toOption =
      some [⟨.iri ⟨"x"⟩, .iri Rdf.type, .iri ⟨"B"⟩⟩] := by
  rw [reasoner_eq]
  rfl

/-- To belong to the type profile is not to belong to what the types are read as. -/
theorem not_forall_isSome_translate_typeProfile :
    ¬ ∀ (k : Knowledge) (t x : Term) (profile : Expression), k.typeProfile t = .ok profile →
      (Translator.new.translate k.reasoner profile x).1.toOption.isSome =
        (Translator.new.translate k.reasoner (.meet (k.typeReadings t)) x).1.toOption.isSome := by
  intro h
  have hx := h knowledge (.iri ⟨"t"⟩) (.iri ⟨"x"⟩) _ typeProfile_t
  have hmeet : Expression.meet [union] = union := by decide
  rw [typeReadings_t, hmeet, toOption_translate_node, toOption_translate_union] at hx
  exact absurd hx (by simp)

/-- A node that declares nothing is read as it stands in the profile, and y is a member of it. -/
theorem translate_typeProfile_u :
    knowledge.typeProfile (.iri ⟨"u"⟩) = .ok (.concept (.blank ⟨3, none⟩)) ∧
      (.concept (.blank ⟨3, none⟩) = Expression.meet (knowledge.typeReadings (.iri ⟨"u"⟩))) ∧
      ∃ found, (Translator.new.translate knowledge.reasoner (.concept (.blank ⟨3, none⟩))
          (.iri ⟨"y"⟩)).1 = .ok found ∧
        knowledge.IsMember (.iri ⟨"y"⟩) (.blank ⟨3, none⟩) := by
  have hprofile : knowledge.typeProfile (.iri ⟨"u"⟩) = .ok (.concept (.blank ⟨3, none⟩)) := rfl
  have htypes : knowledge.store.types (.iri ⟨"u"⟩) = [.blank ⟨3, none⟩] := by decide
  obtain ⟨hreadings, hmember⟩ := translate_typeProfile knowledge (.iri ⟨"u"⟩) _ hprofile
  obtain ⟨found, hfound⟩ : ∃ found, (Translator.new.translate knowledge.reasoner
      (.concept (.blank ⟨3, none⟩)) (.iri ⟨"y"⟩)).1 = .ok found := ⟨_, rfl⟩
  refine ⟨hprofile, hreadings ?_, found, hfound, ?_⟩
  · intro b hb _
    rw [htypes, List.mem_singleton] at hb
    rw [hb]
    rfl
  · exact hmember _ found hfound ⟨3, none⟩ (by rw [htypes]; simp) (by simp) (by decide)

end UnionType

end GraphConformance
