import GraphConformance.Proofs.Knowledge.Decision
import GraphConformance.Proofs.Knowledge.FollowedEdges

/-!
# What is read or described is reduced

The parts of an intersection or union may turn out to be the same, or everything, only when they
have been read. `Expression.meet` and `Expression.join` see to this at their own level
(`meet_cases`, `join_cases`), and everything else is built around one part at most. So intersections
and unions are tight at every depth (`Expression.IsReduced`), whatever cycles the store has: in what
a node is read as, by induction on what the reading is not yet inside of, and in a profile, by
induction along the walk that it follows.

Normal forms ask for more (`Expression.IsNormal`), which profiles do not keep to: the datatype of a
literal may be the IRI of everything, and is written as a class all the same.
-/

set_option autoImplicit false

namespace GraphConformance

open Vocabulary

namespace Expression

/-- An intersection or union has several parts and none of them twice, and nothing is intersected
with everything. This says nothing about what the parts are made of. -/
def IsTight : Expression → Prop
  | conj parts => 2 ≤ parts.length ∧ parts.Nodup ∧ .top ∉ parts
  | disj branches => 2 ≤ branches.length ∧ branches.Nodup
  | _ => True

/-- Intersections and unions are tight at every depth. -/
def IsReduced (e : Expression) : Prop := ∀ d ∈ e.components, d.IsTight

variable {e : Expression} {parts branches : List Expression}

theorem isReduced_iff : e.IsReduced ↔ e.IsTight ∧ ∀ part ∈ e.parts, part.IsReduced := by
  constructor
  · intro h
    refine ⟨h e e.self_mem_components, fun part hpart d hd => h d ?_⟩
    exact mem_components.mpr (Or.inr ⟨part, hpart, hd⟩)
  · rintro ⟨htight, hparts⟩ d hd
    rcases mem_components.mp hd with rfl | ⟨part, hpart, hd⟩
    · exact htight
    · exact hparts part hpart d hd

theorem isReduced_of_parts_eq_nil (htight : e.IsTight) (h : e.parts = []) : e.IsReduced := by
  rw [isReduced_iff, h]
  exact ⟨htight, by simp⟩

theorem isReduced_top : top.IsReduced := isReduced_of_parts_eq_nil trivial rfl

theorem isReduced_bottom : bottom.IsReduced := isReduced_of_parts_eq_nil trivial rfl

theorem isReduced_concept (node : Term) : (concept node).IsReduced :=
  isReduced_of_parts_eq_nil trivial rfl

theorem isReduced_nominal (a : Term) : (nominal a).IsReduced :=
  isReduced_of_parts_eq_nil trivial rfl

/-- What is built around one part is reduced if the part is. -/
theorem isReduced_of_parts_eq_singleton {part : Expression} (htight : e.IsTight)
    (h : e.parts = [part]) (hpart : part.IsReduced) : e.IsReduced := by
  rw [isReduced_iff, h]
  exact ⟨htight, List.forall_mem_singleton.mpr hpart⟩

theorem isReduced_someOf {p : Term} {filler : Expression} (h : filler.IsReduced) :
    (someOf p filler).IsReduced :=
  isReduced_of_parts_eq_singleton trivial rfl h

theorem isReduced_named (i : Iri) : (named i).IsReduced := by
  rw [named]
  split
  · exact isReduced_top
  · split
    · exact isReduced_bottom
    · exact isReduced_concept _

/-! ## Intersections and unions -/

/-- An intersection is everything, or one of the parts, or keeps several of them, which are
distinct and not everything. -/
theorem meet_cases (parts : List Expression) :
    meet parts = .top ∨ meet parts ∈ parts ∨
      ∃ kept, meet parts = .conj kept ∧ kept ⊆ parts ∧ (Expression.conj kept).IsTight := by
  have hnodup := Distinct.nodup_dedup (parts.filter (!·.isTop))
  have hkept : ∀ e ∈ Distinct.dedup (parts.filter (!·.isTop)), e ∈ parts ∧ e.isTop = false := by
    intro e he
    simpa using Distinct.mem_dedup.mp he
  rw [meet]
  cases hdedup : Distinct.dedup (parts.filter (!·.isTop)) with
  | nil => exact Or.inl rfl
  | cons e rest =>
    rw [hdedup] at hnodup hkept
    cases rest with
    | nil => exact Or.inr (Or.inl (hkept e List.mem_cons_self).1)
    | cons f rest =>
      refine Or.inr (Or.inr ⟨_, rfl, fun d hd => (hkept d hd).1, ?_, hnodup, ?_⟩)
      · simp
      · intro htop
        exact absurd (hkept _ htop).2 (by simp [isTop])

/-- A union is nothing, or one of the branches, or keeps several of them, which are distinct. -/
theorem join_cases (branches : List Expression) :
    join branches = .bottom ∨ join branches ∈ branches ∨
      ∃ kept, join branches = .disj kept ∧ kept ⊆ branches ∧ (Expression.disj kept).IsTight := by
  have hnodup := Distinct.nodup_dedup branches
  have hkept : ∀ e ∈ Distinct.dedup branches, e ∈ branches := fun _ => Distinct.mem_dedup.mp
  rw [join]
  cases hdedup : Distinct.dedup branches with
  | nil => exact Or.inl rfl
  | cons e rest =>
    rw [hdedup] at hnodup hkept
    cases rest with
    | nil => exact Or.inr (Or.inl (hkept e List.mem_cons_self))
    | cons f rest =>
      refine Or.inr (Or.inr ⟨_, rfl, hkept, ?_, hnodup⟩)
      simp

theorem isReduced_meet (h : ∀ e ∈ parts, e.IsReduced) : (meet parts).IsReduced := by
  rcases meet_cases parts with htop | hpart | ⟨kept, hkept, hsubset, htight⟩
  · rw [htop]
    exact isReduced_top
  · exact h _ hpart
  · rw [hkept]
    exact isReduced_iff.mpr ⟨htight, fun e he => h e (hsubset he)⟩

theorem isReduced_join (h : ∀ e ∈ branches, e.IsReduced) : (join branches).IsReduced := by
  rcases join_cases branches with hbottom | hbranch | ⟨kept, hkept, hsubset, htight⟩
  · rw [hbottom]
    exact isReduced_bottom
  · exact h _ hbranch
  · rw [hkept]
    exact isReduced_iff.mpr ⟨htight, fun e he => h e (hsubset he)⟩

end Expression

/-! ## Reading -/

/-- A form is reduced when its parts are read as reduced expressions. -/
theorem NodeForm.isReduced_toExpression {read : Term → Expression} {form : NodeForm}
    (h : ∀ x ∈ form.parts, (read x).IsReduced) : (form.toExpression read).IsReduced := by
  cases form with
  | intersection parts => exact Expression.isReduced_meet (List.forall_mem_map.mpr h)
  | union parts => exact Expression.isReduced_join (List.forall_mem_map.mpr h)
  | enumeration individuals =>
    apply Expression.isReduced_join
    rw [List.forall_mem_map]
    exact fun a _ => Expression.isReduced_nominal a
  | complement part | some _ part | only _ part =>
    have hpart := h part (List.mem_singleton_self _)
    exact Expression.isReduced_of_parts_eq_singleton trivial rfl hpart
  | value p v =>
    exact Expression.isReduced_of_parts_eq_singleton trivial rfl (Expression.isReduced_nominal v)
  | _ => exact Expression.isReduced_of_parts_eq_nil trivial rfl

theorem Store.isReduced_readExpression (s : Store) (inside : List Term) (x : Term) :
    (s.readExpression inside x).IsReduced := by
  -- on what the reading is not inside of yet: the parts of a node are read with that node inside
  induction hn : s.remaining inside using Nat.strongRecOn generalizing inside x with
  | ind n ih =>
    subst hn
    cases x with
    | iri i =>
      rw [readExpression_iri]
      exact Expression.isReduced_named i
    | literal l =>
      rw [readExpression_literal]
      exact Expression.isReduced_concept _
    | blank b =>
      by_cases hb : .blank b ∈ inside
      · rw [readExpression_of_mem hb]
        exact Expression.isReduced_concept _
      cases hform : s.form? (.blank b) with
      | none =>
        rw [readExpression_of_form?_eq_none hform]
        exact Expression.isReduced_concept _
      | some form =>
        obtain ⟨e, he⟩ := exists_edge_of_form? hform
        rw [readExpression_of_form? hb hform]
        apply NodeForm.isReduced_toExpression
        exact fun y _ => ih _ (remaining_lt hb he) _ y rfl

/-! ## Profiles -/

namespace Knowledge

variable {k : Knowledge} {nested identity : Bool} {x : Term} {e : Expression}

theorem isReduced_of_mem_typeParts {types : List Term} (he : e ∈ typeParts x types) :
    e.IsReduced := by
  obtain ⟨t, -, ht⟩ := List.mem_filterMap.mp he
  cases t with
  | iri i =>
    rw [Term.typeExpression?] at ht
    split at ht
    · exact absurd ht (by simp)
    · rw [← Option.some.inj ht]
      exact Expression.isReduced_named i
  | literal l => exact absurd ht (by simp [Term.typeExpression?])
  | blank b =>
    rw [← Option.some.inj ht]
    exact Expression.isReduced_concept _

theorem isReduced_of_mem_identityPart (he : e ∈ identityPart identity x) : e.IsReduced := by
  rw [identityPart] at he
  split at he
  · rw [List.mem_singleton.mp he]
    exact Expression.isReduced_nominal x
  · exact absurd he (by simp)

theorem isReduced_assemble {parts : List Expression} (h : ∀ e ∈ parts, e.IsReduced) :
    (k.assemble identity x parts).IsReduced := by
  have hmeet : (Expression.meet (identityPart identity x ++ typeParts x (k.store.types x) ++
      parts)).IsReduced := by
    apply Expression.isReduced_meet
    intro e he
    rcases List.mem_append.mp he with he | he
    · rcases List.mem_append.mp he with he | he
      · exact isReduced_of_mem_identityPart he
      · exact isReduced_of_mem_typeParts he
    · exact h e he
  cases x with
  | literal l => exact Expression.isReduced_concept _
  | iri i => exact hmeet
  | blank b => exact hmeet

/-- What a walk tells is reduced: so is the profile of the end of each edge that it follows. -/
theorem Walk.isReduced {ts followed steps : List Triple} {parts : List Expression}
    (h : k.Walk nested ts followed parts steps) : ∀ e ∈ parts, e.IsReduced := by
  induction h with
  | nil => simp
  | again _ _ ih =>
    exact List.forall_mem_cons.mpr ⟨Expression.isReduced_someOf Expression.isReduced_top, ih⟩
  | follow _ _ _ ihend ihrest =>
    exact List.forall_mem_cons.mpr
      ⟨Expression.isReduced_someOf (isReduced_assemble ihend), ihrest⟩

theorem isReduced_of_profile (h : k.profile x identity nested = .ok e) : e.IsReduced := by
  by_cases hx : k.Knows x
  · obtain ⟨parts, steps, hwalk, hparts, -⟩ :=
      exists_walk_edgeParts (k := k) nested (fun _ => id) (Room.start k)
    have hprofile : k.profile x identity nested = .ok (k.assemble identity x parts) :=
      profile_eq_ok_iff.mpr ⟨_, describe_of_edgeParts hx hparts⟩
    rw [← Except.ok.inj (hprofile.symm.trans h)]
    exact isReduced_assemble hwalk.isReduced
  · rw [profile_of_not_knows hx] at h
    cases h

theorem isReduced_of_typeProfile (h : k.typeProfile x = .ok e) : e.IsReduced := by
  obtain ⟨types, -, h⟩ := bind_eq_ok_iff.mp h
  rw [← Except.ok.inj h]
  exact Expression.isReduced_meet fun _ => isReduced_of_mem_typeParts

end Knowledge

/-- At every depth of what a term is read as, of a profile, with any identities asked for, and of
the types of an individual, an intersection or union has several parts, none of them twice, and
nothing is intersected with everything. -/
theorem expressions_reduced :
    (∀ (s : Store) (x : Term), (s.expression x).IsReduced) ∧
      ∀ (k : Knowledge) (x : Term),
        (∀ identity nested e, k.profile x identity nested = .ok e → e.IsReduced) ∧
          ∀ e, k.typeProfile x = .ok e → e.IsReduced :=
  ⟨fun s x => s.isReduced_readExpression [] x,
    fun _ _ => ⟨fun _ _ _ h => Knowledge.isReduced_of_profile h,
      fun _ h => Knowledge.isReduced_of_typeProfile h⟩⟩

/-! ### Parts that turn out the same

A blank node is the intersection of B, everything, B again and the node itself. An individual is an
A and a B, and has itself under p. -/

namespace RepeatedParts

def node (id : Nat) : Term := .blank ⟨id, none⟩

/-- A cell of a list. -/
def cell (id : Nat) (item next : Term) : List Triple :=
  [⟨node id, .iri Rdf.first, item⟩, ⟨node id, .iri Rdf.rest, next⟩]

def knowledge : Knowledge where
  store := .ofList <|
    [⟨.iri ⟨"i"⟩, .iri Rdf.type, .iri ⟨"A"⟩⟩, ⟨.iri ⟨"i"⟩, .iri Rdf.type, .iri ⟨"B"⟩⟩,
      ⟨.iri ⟨"i"⟩, .iri ⟨"p"⟩, .iri ⟨"i"⟩⟩, ⟨node 0, .iri Owl.intersectionOf, node 1⟩] ++
    cell 1 (.iri ⟨"B"⟩) (node 2) ++ cell 2 (.iri Owl.thing) (node 3) ++
    cell 3 (.iri ⟨"B"⟩) (node 4) ++ cell 4 (node 0) (.iri Rdf.nil)
  maxDepth := 8

def read : Expression := .conj [.concept (.iri ⟨"B"⟩), .concept (node 0)]

def types : List Expression := [.concept (.iri ⟨"A"⟩), .concept (.iri ⟨"B"⟩)]

def described : Expression :=
  .conj (.nominal (.iri ⟨"i"⟩) ::
    types ++ [.someOf (.iri ⟨"p"⟩) (.conj (types ++ [.someOf (.iri ⟨"p"⟩) .top]))])

theorem expression_node : knowledge.store.expression (node 0) = read := by
  decide +kernel

theorem profile_individual : knowledge.profile (.iri ⟨"i"⟩) true false = .ok described := by rfl

theorem typeProfile_individual : knowledge.typeProfile (.iri ⟨"i"⟩) = .ok (.conj types) := by rfl

/-- At the node, the intersection keeps two of its four parts. -/
theorem expressions_reduced_repeated :
    knowledge.store.expression (node 0) = read ∧ read.IsReduced ∧
      knowledge.profile (.iri ⟨"i"⟩) true false = .ok described ∧ described.IsReduced ∧
      knowledge.typeProfile (.iri ⟨"i"⟩) = .ok (.conj types) ∧
      (Expression.conj types).IsReduced := by
  obtain ⟨hread, hdescribed⟩ := expressions_reduced
  obtain ⟨hprofile, htypes⟩ := hdescribed knowledge (.iri ⟨"i"⟩)
  have hnode := hread knowledge.store (node 0)
  rw [expression_node] at hnode
  exact ⟨expression_node, hnode, profile_individual, hprofile _ _ _ profile_individual,
    typeProfile_individual, htypes _ typeProfile_individual⟩

end RepeatedParts

end GraphConformance
