import GraphConformance.Proofs.Knowledge.Profiles
import GraphConformance.Proofs.Knowledge.Unfolding

/-!
# What a profile unfolds

A profile goes through the tree of edges depth first and describes what lies beyond an edge when the
edge comes up for the first time. When the same edge comes up again it only says that there is a
value, even though nothing is cyclic (`Unfolding.partsAfter`, `Knowledge.profile_of_unfolds`).

Where edges meet only at individuals without edges of their own, no edge comes up twice. Then the
profile is the full unfolding (`Unfolding.parts`), and in a store that lists the same triples in
another order it is the same but for the order in which its conjuncts are listed, and how often
(`Expression.Alike`, `profile_of_isAcyclic`).
-/

set_option autoImplicit false

namespace GraphConformance

open Relation Vocabulary

/-! ## Full and partial profiles of trees -/

namespace Knowledge

/-- The profile of an individual, given what its edges say: its identity when asked for, its types
and these parts. -/
def assemble (k : Knowledge) (identity : Bool) (x : Term) (parts : List Expression) :
    Expression :=
  match x with
  | .literal l => .concept (.iri l.effectiveDatatype)
  | _ => .meet (identityPart identity x ++ typeParts x (k.store.types x) ++ parts)

end Knowledge

namespace Unfolding

/-- What the edges say, each with the full profile of its end. -/
def parts (k : Knowledge) (nested : Bool) : Unfolding → List Expression
  | nil => []
  | cons t beyond rest =>
    .someOf t.predicate (k.assemble nested t.object (beyond.parts k nested)) :: rest.parts k nested

/-- What the edges say when some edges were walked before: nothing of what lies beyond these. -/
def partsAfter (k : Knowledge) (nested : Bool) : List Triple → Unfolding → List Expression
  | _, nil => []
  | before, cons t beyond rest =>
    let filler :=
      if t ∈ before then .top
      else k.assemble nested t.object (beyond.partsAfter k nested (before ++ [t]))
    .someOf t.predicate filler :: rest.partsAfter k nested (before ++ t :: beyond.walk)

end Unfolding

namespace Knowledge

variable {k : Knowledge} {x : Term} {t : Triple} {ts : List Triple} {u : Unfolding}

/-! ## The walk of a profile -/

/-- Followed edges are told once each, and the depth that is left reaches for all others. -/
structure Room (k : Knowledge) (depth : Nat) (followed : List Triple) : Prop where
  nodup : followed.Nodup
  subset : followed ⊆ k.store.triples
  size_le : k.store.size ≤ depth + followed.length

namespace Room

variable {depth : Nat} {followed : List Triple}

theorem start (k : Knowledge) : k.Room k.store.size [] :=
  ⟨List.nodup_nil, List.nil_subset _, by simp⟩

/-- To follow one more edge takes one step of depth, which is left. -/
theorem follow (h : k.Room depth followed) (ht : t ∈ k.store.triples) (hnew : t ∉ followed) :
    ∃ below, depth = below + 1 ∧ k.Room below (followed ++ [t]) := by
  have hnodup : (followed ++ [t]).Nodup := by simpa using List.Nodup.concat hnew h.nodup
  have hsubset : followed ++ [t] ⊆ k.store.triples := by
    intro s hs
    rcases List.mem_append.mp hs with hs | hs
    · exact h.subset hs
    · rwa [List.mem_singleton.mp hs]
  have hsize := h.size_le
  have hlength : (followed ++ [t]).length ≤ k.store.size :=
    (List.subperm_of_subset hnodup hsubset).length_le
  have hone : (followed ++ [t]).length = followed.length + 1 := by simp
  exact ⟨depth - 1, by omega, hnodup, hsubset, by omega⟩

theorem succ (h : k.Room depth followed) : k.Room (depth + 1) followed :=
  ⟨h.nodup, h.subset, by have := h.size_le; omega⟩

end Room

/-- Where an edge of the tree was walked before, so was what lies beyond it. -/
def Closed (k : Knowledge) (u : Unfolding) (before : List Triple) : Prop :=
  ∀ s ∈ u.walk, s ∈ before → ∀ beyond, k.Unfolds (k.content s.object) beyond →
    beyond.walk ⊆ before

section Closed

variable {before : List Triple} {beyond rest : Unfolding}

theorem Closed.inside (h : k.Closed (.cons t beyond rest) before)
    (hbeyond : k.Unfolds (k.content t.object) beyond) : k.Closed beyond (before ++ [t]) := by
  intro s hs hbefore inner hinner
  rcases List.mem_append.mp hbefore with hbefore | hst
  · have hwalk : s ∈ (Unfolding.cons t beyond rest).walk :=
      List.mem_cons_of_mem _ (List.mem_append_left _ hs)
    exact fun v hv => List.mem_append_left _ (h s hwalk hbefore inner hinner hv)
  · rw [List.mem_singleton.mp hst] at hs
    exact absurd hs hbeyond.not_mem_walk

theorem Closed.next (h : k.Closed (.cons t beyond rest) before)
    (hbeyond : k.Unfolds (k.content t.object) beyond) :
    k.Closed rest (before ++ t :: beyond.walk) := by
  intro s hs hbefore inner hinner v hv
  rcases List.mem_append.mp hbefore with hbefore | hlater
  · have hwalk : s ∈ (Unfolding.cons t beyond rest).walk :=
      List.mem_cons_of_mem _ (List.mem_append_right _ hs)
    exact List.mem_append_left _ (h s hwalk hbefore inner hinner hv)
  · -- the edge was walked just now, and so was what lies beyond it
    apply List.mem_append_right
    apply List.mem_cons_of_mem
    rcases List.mem_cons.mp hlater with rfl | hlater
    · rwa [← hinner.unique hbeyond]
    · obtain ⟨other, hother, hsubset, -⟩ := hbeyond.exists_beyond hlater
      rw [hinner.unique hother] at hv
      exact hsubset hv

/-- After an edge that was walked before, nothing is new. -/
theorem Closed.mem_append_iff (h : k.Closed (.cons t beyond rest) before)
    (hbeyond : k.Unfolds (k.content t.object) beyond) (ht : t ∈ before) (s : Triple) :
    s ∈ before ++ t :: beyond.walk ↔ s ∈ before := by
  rw [List.mem_append, List.mem_cons]
  constructor
  · rintro (hs | rfl | hs)
    · exact hs
    · exact ht
    · exact h t List.mem_cons_self ht beyond hbeyond hs
  · exact Or.inl

end Closed

/-- Edges that describe structure are passed over. -/
theorem edgeParts_filter (describe : Term → List Triple → Described) (x : Term)
    (edges : List Edge) (followed : List Triple) :
    edgeParts describe x edges followed =
      edgeParts describe x (edges.filter fun e => e.1.isReserved = false) followed := by
  induction edges generalizing followed with
  | nil => rfl
  | cons edge rest ih =>
    obtain ⟨p, v⟩ := edge
    cases hp : p.isReserved with
    | true => rw [edgeParts, if_pos hp, List.filter_cons_of_neg (by simp [hp]), ih]
    | false =>
      rw [List.filter_cons_of_pos (by simp [hp]), edgeParts, edgeParts]
      simp only [ih]

theorem filter_outgoing (hx : x.isIndividual = true) :
    (k.store.outgoing x).filter (fun e => e.1.isReserved = false) =
      (k.content x).map Triple.edge := by
  rw [Store.outgoing_eq_edgesFrom, edgesFrom, content, if_pos hx, List.filter_map,
    List.filter_filter]
  congr 1
  apply List.filter_congr
  intro t _
  simp [Triple.edge, Bool.and_comm]

theorem meet_eq_assemble {identity : Bool} {parts : List Expression}
    (hx : x.isIndividual = true) :
    .meet (identityPart identity x ++ typeParts x (k.store.types x) ++ parts) =
      k.assemble identity x parts := by
  cases x with
  | literal l => exact absurd hx (by simp [Term.isIndividual])
  | iri i => rfl
  | blank b => rfl

/-- What is known is described by what its edges say, of which a literal has none. -/
theorem describe_of_edgeParts {nested : Bool} {depth : Nat} {identity : Bool} (hx : k.Knows x)
    {followed after : List Triple} {parts : List Expression}
    (h : edgeParts (k.describe nested depth nested) x ((k.content x).map Triple.edge) followed =
      .ok (parts, after)) :
    k.describe nested (depth + 1) identity x followed =
      .ok (k.assemble identity x parts, after) := by
  by_cases hindividual : x.isIndividual = true
  · have hmentioned := hx.mentioned hindividual
    rw [← filter_outgoing hindividual, ← edgeParts_filter] at h
    rw [describe_succ hindividual, ← meet_eq_assemble hindividual]
    exact bind_eq_ok_iff.mpr ⟨_, ifMentioned_eq_ok_iff.mpr ⟨hmentioned, rfl⟩,
      bind_eq_ok_iff.mpr ⟨_, ifMentioned_eq_ok_iff.mpr ⟨hmentioned, rfl⟩,
        bind_eq_ok_iff.mpr ⟨_, h, rfl⟩⟩⟩
  · obtain ⟨l, rfl⟩ := Term.exists_literal (by simpa using hindividual)
    obtain ⟨-, rfl⟩ := Prod.mk.inj (Except.ok.inj h)
    rfl

/-- What the edges of an individual say when some edges were followed: the parts of their tree after
these edges. All edges of the tree have been followed in the end. -/
theorem edgeParts_of_unfolds {nested : Bool} (h : k.Unfolds ts u) {depth : Nat}
    {followed before : List Triple} (hts : ∀ t ∈ ts, t ∈ k.content x)
    (hroom : k.Room depth followed) (hbefore : ∀ s, s ∈ followed ↔ s ∈ before)
    (hclosed : k.Closed u before) :
    ∃ after, edgeParts (k.describe nested depth nested) x (ts.map Triple.edge) followed =
        .ok (u.partsAfter k nested before, after) ∧
      k.Room depth after ∧ ∀ s, s ∈ after ↔ s ∈ before ++ u.walk := by
  -- induction on the tree; the followed edges are those walked before, in some order
  induction h generalizing x depth followed before with
  | nil => exact ⟨followed, rfl, hroom, by simpa [Unfolding.walk] using hbefore⟩
  | cons hbeyond hrest ihbeyond ihrest =>
    rename_i t ts beyond rest
    obtain ⟨hx, hstored, hsubject, hreserved⟩ := mem_content.mp (hts t List.mem_cons_self)
    have hedge : (⟨x, t.predicate, t.object⟩ : Triple) = t := by rw [← hsubject]
    have hothers : ∀ s ∈ ts, s ∈ k.content x := fun s hs => hts s (List.mem_cons_of_mem _ hs)
    have hnext := hclosed.next hbeyond
    rw [List.map_cons, Triple.edge, edgeParts, if_neg (by simp [hreserved]), hedge,
      Unfolding.partsAfter, Unfolding.walk]
    by_cases ht : t ∈ followed
    · have htold : t ∈ before := (hbefore t).mp ht
      -- all beyond the edge was followed with it, so the rest goes on from the same edges
      have hwalked : ∀ s, s ∈ followed ↔ s ∈ before ++ t :: beyond.walk :=
        fun s => (hbefore s).trans (hclosed.mem_append_iff hbeyond htold s).symm
      obtain ⟨after, hparts, hroom', hafter⟩ := ihrest hothers hroom hwalked hnext
      refine ⟨after, ?_, hroom', by simpa using hafter⟩
      rw [if_pos ht, if_pos htold]
      exact bind_eq_ok_iff.mpr ⟨_, hparts, rfl⟩
    · obtain ⟨below, rfl, hroomInside⟩ := hroom.follow hstored ht
      have hmark : ∀ s, s ∈ followed ++ [t] ↔ s ∈ before ++ [t] := by
        intro s
        rw [List.mem_append, List.mem_append, hbefore]
      -- what lies beyond the edge is described first
      obtain ⟨inside, hbeyondParts, hroomBeyond, hinside⟩ :=
        ihbeyond (fun _ => id) hroomInside hmark (hclosed.inside hbeyond)
      have hdescribed : k.describe nested (below + 1) nested t.object (followed ++ [t]) =
          .ok (k.assemble nested t.object (beyond.partsAfter k nested (before ++ [t])), inside) :=
        describe_of_edgeParts (Knows.of_object hstored) hbeyondParts
      have hwalked : ∀ s, s ∈ inside ↔ s ∈ before ++ t :: beyond.walk := by simpa using hinside
      obtain ⟨after, hparts, hroom', hafter⟩ := ihrest hothers hroomBeyond.succ hwalked hnext
      refine ⟨after, ?_, hroom', by simpa using hafter⟩
      rw [if_neg ht, if_neg fun h => ht ((hbefore t).mpr h)]
      exact bind_eq_ok_iff.mpr ⟨_, hdescribed, bind_eq_ok_iff.mpr ⟨_, hparts, rfl⟩⟩

/-- The profile of an individual whose edges unfold: each edge says what lies beyond it the first
time that it is walked. -/
theorem profile_of_unfolds {identity nested : Bool} (hx : k.Knows x)
    (h : k.Unfolds (k.content x) u) :
    k.profile x identity nested = .ok (k.assemble identity x (u.partsAfter k nested [])) := by
  have hclosed : k.Closed u [] := by
    intro s _ hs
    exact absurd hs (by simp)
  obtain ⟨after, hparts, -⟩ :=
    edgeParts_of_unfolds h (fun _ => id) (Room.start k) (fun _ => Iff.rfl) hclosed
  exact profile_eq_ok_iff.mpr ⟨after, describe_of_edgeParts hx hparts⟩

end Knowledge

/-- Where no edge comes up twice, what lies beyond it is told each time. -/
theorem Unfolding.partsAfter_eq_parts {k : Knowledge} {nested : Bool} {u : Unfolding}
    {before : List Triple} (hnodup : u.walk.Nodup) (hnew : ∀ t ∈ u.walk, t ∉ before) :
    u.partsAfter k nested before = u.parts k nested := by
  induction u generalizing before with
  | nil => rfl
  | cons t beyond rest ihbeyond ihrest =>
    obtain ⟨hedge, hwalks⟩ := List.nodup_cons.mp hnodup
    obtain ⟨hbeyond, hrest, hdisjoint⟩ := List.nodup_append.mp hwalks
    have hinside : ∀ s ∈ beyond.walk, s ∉ before ++ [t] := by
      intro s hs hmem
      rcases List.mem_append.mp hmem with hmem | hmem
      · exact hnew s (List.mem_cons_of_mem _ (List.mem_append_left _ hs)) hmem
      · rw [List.mem_singleton.mp hmem] at hs
        exact hedge (List.mem_append_left _ hs)
    have hnext : ∀ s ∈ rest.walk, s ∉ before ++ t :: beyond.walk := by
      intro s hs hmem
      rcases List.mem_append.mp hmem with hmem | hmem
      · exact hnew s (List.mem_cons_of_mem _ (List.mem_append_right _ hs)) hmem
      · rcases List.mem_cons.mp hmem with rfl | hmem
        · exact hedge (List.mem_append_right _ hs)
        · exact hdisjoint s hmem s hs rfl
    rw [partsAfter, parts, if_neg (hnew t List.mem_cons_self), ihbeyond hbeyond hinside,
      ihrest hrest hnext]

namespace Knowledge

variable {k : Knowledge} {x y : Term} {ts : List Triple} {u : Unfolding}

/-- Without cycles and shared ends, a profile is the full unfolding. -/
theorem profile_of_unshared {identity nested : Bool} (hx : k.Knows x) (hacyclic : k.IsAcyclic x)
    (hunshared : k.Unshared x) (h : k.Unfolds (k.content x) u) :
    k.profile x identity nested = .ok (k.assemble identity x (u.parts k nested)) := by
  have hnodup := nodup_walk hacyclic hunshared h .refl (fun _ => id) (k.nodup_content x)
  rw [profile_of_unfolds hx h, Unfolding.partsAfter_eq_parts hnodup (by simp)]

end Knowledge

/-! ## Other orders of the triples -/

/-- The same expression, but for the order in which conjuncts are listed, and how often. -/
inductive Expression.Alike : Expression → Expression → Prop where
  | refl (e : Expression) : Alike e e
  | someOf {p : Term} {c d : Expression} (h : Alike c d) : Alike (.someOf p c) (.someOf p d)
  | meet {cs ds : List Expression} {there back : Expression → Expression}
      (hthere : ∀ c ∈ cs, there c ∈ ds) (hto : ∀ c ∈ cs, Alike c (there c))
      (hback : ∀ d ∈ ds, back d ∈ cs) (hfrom : ∀ d ∈ ds, Alike (back d) d) :
      Alike (.meet cs) (.meet ds)

namespace Expression.Alike

/-- Intersections are alike when each part of one has its like among the parts of the other. -/
theorem of_parts {cs ds : List Expression} (hto : ∀ c ∈ cs, ∃ d ∈ ds, Alike c d)
    (hfrom : ∀ d ∈ ds, ∃ c ∈ cs, Alike c d) : Alike (.meet cs) (.meet ds) := by
  classical
  choose! there hthere hto using hto
  choose! back hback hfrom using hfrom
  exact .meet hthere hto hback hfrom

universe v in
/-- Alike expressions have the same members in every interpretation. -/
theorem meaning_eq {Δ : Type v} (I : Interpretation Δ) {c d : Expression} (h : Alike c d) :
    c.meaning I = d.meaning I := by
  induction h with
  | refl e => rfl
  | someOf h ih => rw [Expression.meaning, Expression.meaning, ih]
  | meet hthere hto hback hfrom ihto ihfrom =>
    ext x
    rw [mem_meaning_meet, mem_meaning_meet]
    constructor
    · intro hx d hd
      rw [← ihfrom d hd]
      exact hx _ (hback d hd)
    · intro hx c hc
      rw [ihto c hc]
      exact hx _ (hthere c hc)

end Expression.Alike

namespace Knowledge

variable {k k' : Knowledge} {x y : Term} {ts : List Triple} {u u' : Unfolding}

section Reordered

variable (hperm : k'.store.triples.Perm k.store.triples)

include hperm

theorem mem_content_iff_of_perm (x : Term) (t : Triple) : t ∈ k'.content x ↔ t ∈ k.content x := by
  rw [mem_content, mem_content, hperm.mem_iff]

theorem leads_eq_of_perm : k'.Leads = k.Leads := by
  funext x y
  simp only [Leads, mem_content_iff_of_perm hperm]

theorem isAcyclic_of_perm (h : k.IsAcyclic x) : k'.IsAcyclic x := by
  rwa [IsAcyclic, leads_eq_of_perm hperm]

theorem meets_iff_of_perm (t : Triple) : k'.Meets x t ↔ k.Meets x t := by
  simp only [Meets, leads_eq_of_perm hperm, mem_content_iff_of_perm hperm]

theorem unshared_of_perm (h : k.Unshared x) : k'.Unshared x := by
  intro t s ht hs hts
  rcases h t s ((meets_iff_of_perm hperm t).mp ht) ((meets_iff_of_perm hperm s).mp hs) hts with
    heq | hnone
  · exact Or.inl heq
  · refine Or.inr (List.eq_nil_iff_forall_not_mem.mpr fun v hv => ?_)
    rw [mem_content_iff_of_perm hperm, hnone] at hv
    exact absurd hv (by simp)

theorem knows_of_perm (h : k.Knows x) : k'.Knows x := by
  rcases h with h | h
  · exact Or.inl h
  · obtain ⟨t, ht, hmem⟩ := Store.mentions_iff.mp h
    exact Or.inr (Store.mentions_iff.mpr ⟨t, hperm.mem_iff.mpr ht, hmem⟩)

theorem mem_typeParts_iff_of_perm (x : Term) (e : Expression) :
    e ∈ typeParts x (k'.store.types x) ↔ e ∈ typeParts x (k.store.types x) := by
  simp only [typeParts, List.mem_filterMap, List.mem_filter, Store.mem_types, hperm.mem_iff]

end Reordered

/-- What lies beyond one of the first edges unfolds. -/
theorem Unfolds.exists_of_mem (h : k.Unfolds ts u) {t : Triple} (ht : t ∈ ts) :
    ∃ beyond, k.Unfolds (k.content t.object) beyond := by
  obtain ⟨beyond, hbeyond, -⟩ := h.exists_beyond (h.mem_walk ht)
  exact ⟨beyond, hbeyond⟩

/-- The parts of a full unfolding, one for each edge. -/
theorem mem_parts {nested : Bool} (h : k.Unfolds ts u) {e : Expression} :
    e ∈ u.parts k nested ↔ ∃ t ∈ ts, ∃ beyond, k.Unfolds (k.content t.object) beyond ∧
      e = .someOf t.predicate (k.assemble nested t.object (beyond.parts k nested)) := by
  induction h with
  | nil => simp [Unfolding.parts]
  | cons hbeyond hrest ihbeyond ihrest =>
    rename_i t ts beyond rest
    rw [Unfolding.parts, List.mem_cons, ihrest]
    constructor
    · rintro (rfl | ⟨s, hs, hpart⟩)
      · exact ⟨t, List.mem_cons_self, beyond, hbeyond, rfl⟩
      · exact ⟨s, List.mem_cons_of_mem _ hs, hpart⟩
    · rintro ⟨s, hs, inner, hinner, rfl⟩
      rcases List.mem_cons.mp hs with rfl | hs
      · rw [hinner.unique hbeyond]
        exact Or.inl rfl
      · exact Or.inr ⟨s, hs, inner, hinner, rfl⟩

/-- The full profiles of the end of an edge, in two stores. -/
def EndsAlike (k k' : Knowledge) (nested : Bool) (t : Triple) : Prop :=
  ∀ {beyond beyond'}, k.Unfolds (k.content t.object) beyond →
    k'.Unfolds (k'.content t.object) beyond' → ∀ identity,
      (k.assemble identity t.object (beyond.parts k nested)).Alike
        (k'.assemble identity t.object (beyond'.parts k' nested))

/-- An individual has like profiles when the ends of its edges have. -/
theorem alike_assemble (hperm : k'.store.triples.Perm k.store.triples) {nested : Bool}
    (hends : ∀ t ∈ k.content x, EndsAlike k k' nested t) (h : k.Unfolds (k.content x) u)
    (h' : k'.Unfolds (k'.content x) u') (identity : Bool) :
    (k.assemble identity x (u.parts k nested)).Alike
      (k'.assemble identity x (u'.parts k' nested)) := by
  by_cases hx : x.isIndividual = true
  · rw [← meet_eq_assemble hx, ← meet_eq_assemble hx]
    -- identity and types are the same; the part of an edge is like that of the same edge
    apply Expression.Alike.of_parts
    · intro c hc
      rcases List.mem_append.mp hc with hc | hc
      · refine ⟨c, List.mem_append_left _ ?_, .refl c⟩
        rcases List.mem_append.mp hc with hc | hc
        · exact List.mem_append_left _ hc
        · exact List.mem_append_right _ ((mem_typeParts_iff_of_perm hperm x c).mpr hc)
      · obtain ⟨t, ht, beyond, hbeyond, rfl⟩ := (mem_parts h).mp hc
        have ht' := (mem_content_iff_of_perm hperm x t).mpr ht
        obtain ⟨beyond', hbeyond'⟩ := h'.exists_of_mem ht'
        exact ⟨_, List.mem_append_right _ ((mem_parts h').mpr ⟨t, ht', beyond', hbeyond', rfl⟩),
          .someOf (hends t ht hbeyond hbeyond' nested)⟩
    · intro d hd
      rcases List.mem_append.mp hd with hd | hd
      · refine ⟨d, List.mem_append_left _ ?_, .refl d⟩
        rcases List.mem_append.mp hd with hd | hd
        · exact List.mem_append_left _ hd
        · exact List.mem_append_right _ ((mem_typeParts_iff_of_perm hperm x d).mp hd)
      · obtain ⟨t, ht', beyond', hbeyond', rfl⟩ := (mem_parts h').mp hd
        have ht := (mem_content_iff_of_perm hperm x t).mp ht'
        obtain ⟨beyond, hbeyond⟩ := h.exists_of_mem ht
        exact ⟨_, List.mem_append_right _ ((mem_parts h).mpr ⟨t, ht, beyond, hbeyond, rfl⟩),
          .someOf (hends t ht hbeyond hbeyond' nested)⟩
  · obtain ⟨l, rfl⟩ := Term.exists_literal (by simpa using hx)
    exact .refl _

theorem endsAlike_of_perm (hperm : k'.store.triples.Perm k.store.triples) {nested : Bool}
    (h : k.Unfolds ts u) : ∀ t ∈ ts, EndsAlike k k' nested t := by
  induction h with
  | nil => simp
  | cons hbeyond hrest ihbeyond ihrest =>
    intro s hs
    rcases List.mem_cons.mp hs with rfl | hs
    · intro inner inner' hinner hinner'
      exact alike_assemble hperm ihbeyond hinner hinner'
    · exact ihrest s hs

end Knowledge

/-- From an individual without cycles, a profile follows the tree of its edges and tells what lies
beyond an edge when the edge comes up for the first time. Where edges meet only at individuals
without edges of their own, it is the full unfolding, and alike in every store that lists the same
triples. -/
theorem profile_of_isAcyclic (k : Knowledge) (x : Term) (hx : k.Knows x) (hacyclic : k.IsAcyclic x)
    (identity nested : Bool) :
    ∃ u, k.Unfolds (k.content x) u ∧
      k.profile x identity nested = .ok (k.assemble identity x (u.partsAfter k nested [])) ∧
      (k.Unshared x →
        k.profile x identity nested = .ok (k.assemble identity x (u.parts k nested)) ∧
        ∀ k' : Knowledge, k'.store.triples.Perm k.store.triples →
          ∃ e, k'.profile x identity nested = .ok e ∧
            (k.assemble identity x (u.parts k nested)).Alike e) := by
  obtain ⟨u, hu⟩ := Knowledge.exists_unfolds hacyclic
  refine ⟨u, hu, Knowledge.profile_of_unfolds hx hu, ?_⟩
  intro hunshared
  refine ⟨Knowledge.profile_of_unshared hx hacyclic hunshared hu, ?_⟩
  intro k' hperm
  have hacyclic' := Knowledge.isAcyclic_of_perm hperm hacyclic
  obtain ⟨u', hu'⟩ := Knowledge.exists_unfolds hacyclic'
  exact ⟨_, Knowledge.profile_of_unshared (Knowledge.knows_of_perm hperm hx) hacyclic'
    (Knowledge.unshared_of_perm hperm hunshared) hu',
    Knowledge.alike_assemble hperm (Knowledge.endsAlike_of_perm hperm hu) hu hu' identity⟩

/-! ### An individual that two edges reach

Two edges lead from a to b, and two from b to c, which has a type and no edges. From a, what lies
beyond b is told once only; from b, the type of c is told twice. -/

namespace SharedEnd

def triples : List Triple :=
  [⟨.iri ⟨"a"⟩, .iri ⟨"p"⟩, .iri ⟨"b"⟩⟩, ⟨.iri ⟨"a"⟩, .iri ⟨"q"⟩, .iri ⟨"b"⟩⟩,
    ⟨.iri ⟨"b"⟩, .iri ⟨"r"⟩, .iri ⟨"c"⟩⟩, ⟨.iri ⟨"b"⟩, .iri ⟨"s"⟩, .iri ⟨"c"⟩⟩,
    ⟨.iri ⟨"c"⟩, .iri Rdf.type, .iri ⟨"T"⟩⟩]

def knowledge : Knowledge := ⟨.ofList triples, 2⟩

theorem content_a : knowledge.content (.iri ⟨"a"⟩) =
    [⟨.iri ⟨"a"⟩, .iri ⟨"p"⟩, .iri ⟨"b"⟩⟩, ⟨.iri ⟨"a"⟩, .iri ⟨"q"⟩, .iri ⟨"b"⟩⟩] := by decide

theorem content_b : knowledge.content (.iri ⟨"b"⟩) =
    [⟨.iri ⟨"b"⟩, .iri ⟨"r"⟩, .iri ⟨"c"⟩⟩, ⟨.iri ⟨"b"⟩, .iri ⟨"s"⟩, .iri ⟨"c"⟩⟩] := by decide

theorem content_c : knowledge.content (.iri ⟨"c"⟩) = [] := by decide

/-- What lies beyond the edges to b. -/
def beyondB : Unfolding :=
  .cons ⟨.iri ⟨"b"⟩, .iri ⟨"r"⟩, .iri ⟨"c"⟩⟩ .nil
    (.cons ⟨.iri ⟨"b"⟩, .iri ⟨"s"⟩, .iri ⟨"c"⟩⟩ .nil .nil)

def fromA : Unfolding :=
  .cons ⟨.iri ⟨"a"⟩, .iri ⟨"p"⟩, .iri ⟨"b"⟩⟩ beyondB
    (.cons ⟨.iri ⟨"a"⟩, .iri ⟨"q"⟩, .iri ⟨"b"⟩⟩ beyondB .nil)

theorem unfolds_b : knowledge.Unfolds (knowledge.content (.iri ⟨"b"⟩)) beyondB := by
  have hc : knowledge.Unfolds (knowledge.content (.iri ⟨"c"⟩)) .nil := by
    rw [content_c]
    exact .nil
  rw [content_b]
  exact .cons hc (.cons hc .nil)

theorem unfolds_a : knowledge.Unfolds (knowledge.content (.iri ⟨"a"⟩)) fromA := by
  rw [content_a]
  exact .cons unfolds_b (.cons unfolds_b .nil)

/-- What lies beyond a shared end is not told each time, although there is no cycle. -/
theorem not_forall_profile_eq_full :
    ¬ ∀ (k : Knowledge) (x : Term) (identity nested : Bool) (u : Unfolding), k.Knows x →
      k.IsAcyclic x → k.Unfolds (k.content x) u →
        k.profile x identity nested = .ok (k.assemble identity x (u.parts k nested)) := by
  intro h
  have ha := h knowledge (.iri ⟨"a"⟩) false false fromA (Or.inr (by decide))
    (Knowledge.isAcyclic_iff_exists_unfolds.mpr ⟨_, unfolds_a⟩) unfolds_a
  have htop : knowledge.profile (.iri ⟨"a"⟩) false false = .ok (.conj
      [.someOf (.iri ⟨"p"⟩) (.conj [.someOf (.iri ⟨"r"⟩) (.concept (.iri ⟨"T"⟩)),
          .someOf (.iri ⟨"s"⟩) (.concept (.iri ⟨"T"⟩))]),
        .someOf (.iri ⟨"q"⟩) (.conj [.someOf (.iri ⟨"r"⟩) .top, .someOf (.iri ⟨"s"⟩) .top])]) := rfl
  have heq := Except.ok.inj (htop.symm.trans ha)
  exact absurd heq (by decide)

theorem unshared_b : knowledge.Unshared (.iri ⟨"b"⟩) := by
  have hend : ∀ t ∈ beyondB.walk, t.object = .iri ⟨"c"⟩ := by decide
  intro t s ht _ _
  rw [hend t (unfolds_b.meets_iff_mem_walk.mp ht)]
  exact Or.inr content_c

/-- The type of c under both edges of b. -/
def describedB : Expression :=
  .conj [.someOf (.iri ⟨"r"⟩) (.concept (.iri ⟨"T"⟩)), .someOf (.iri ⟨"s"⟩) (.concept (.iri ⟨"T"⟩))]

/-- The same triples in the opposite order. -/
def reversed : Knowledge := ⟨.ofList triples.reverse, 2⟩

/-- From b, whose edges meet at c, the profile is the full unfolding, in either order. -/
theorem profile_of_isAcyclic_b :
    knowledge.Knows (.iri ⟨"b"⟩) ∧ knowledge.IsAcyclic (.iri ⟨"b"⟩) ∧
      knowledge.Unshared (.iri ⟨"b"⟩) ∧
      reversed.store.triples.Perm knowledge.store.triples ∧
      knowledge.profile (.iri ⟨"b"⟩) false false = .ok describedB ∧
      ∃ e, reversed.profile (.iri ⟨"b"⟩) false false = .ok e ∧ describedB.Alike e := by
  have hknown : knowledge.Knows (.iri ⟨"b"⟩) := Or.inr (by decide)
  have hacyclic := Knowledge.isAcyclic_iff_exists_unfolds.mpr ⟨_, unfolds_b⟩
  have hperm : reversed.store.triples.Perm knowledge.store.triples := by decide
  obtain ⟨u, hu, -, hfull⟩ :=
    profile_of_isAcyclic knowledge (.iri ⟨"b"⟩) hknown hacyclic false false
  obtain ⟨hprofile, hreordered⟩ := hfull unshared_b
  obtain rfl : u = beyondB := hu.unique unfolds_b
  exact ⟨hknown, hacyclic, unshared_b, hperm, hprofile, hreordered reversed hperm⟩

end SharedEnd

end GraphConformance
