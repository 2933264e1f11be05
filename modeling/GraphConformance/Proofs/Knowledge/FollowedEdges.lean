import GraphConformance.Proofs.Knowledge.UnfoldedProfiles

/-!
# The edges that a profile follows

A profile is built along a walk of the edges, which knows no bound on its depth and only avoids the
edges that it has followed (`Knowledge.Walk`). On every store, cyclic or not, there is such a walk
from an individual, and only one (`exists_walk_edgeParts`, `Walk.unique`): it follows each edge
to which edges lead, and follows it once (`Walk.nodup`, `Walk.mem_iff_meets`).

Everything that is met along an edge is known, so the only individual that can be refused is the one
that was asked for (`profile_ends`).
-/

set_option autoImplicit false

namespace GraphConformance

open Relation

namespace Knowledge

/-- How edges are told when some edges have been followed: what they say, and the edges that are
followed for it, in order. An edge that has been followed only says that there is a value. Any other
edge is followed before the edges next to it, and told with the profile of its end. -/
inductive Walk (k : Knowledge) (nested : Bool) :
    List Triple → List Triple → List Expression → List Triple → Prop where
  | nil {followed : List Triple} : Walk k nested [] followed [] []
  | again {t : Triple} {ts followed steps : List Triple} {parts : List Expression}
      (ht : t ∈ followed) (hrest : Walk k nested ts followed parts steps) :
      Walk k nested (t :: ts) followed (.someOf t.predicate .top :: parts) steps
  | follow {t : Triple} {ts followed beyond steps : List Triple} {inner parts : List Expression}
      (ht : t ∉ followed)
      (hend : Walk k nested (k.content t.object) (followed ++ [t]) inner beyond)
      (hrest : Walk k nested ts (followed ++ t :: beyond) parts steps) :
      Walk k nested (t :: ts) followed
        (.someOf t.predicate (k.assemble nested t.object inner) :: parts) (t :: (beyond ++ steps))

variable {k : Knowledge} {nested : Bool} {x y : Term} {t : Triple}
variable {ts followed steps steps' : List Triple} {parts parts' : List Expression}

/-! ## Walks -/

namespace Walk

/-- The edges that were followed decide the walk. -/
theorem unique (h : k.Walk nested ts followed parts steps)
    (h' : k.Walk nested ts followed parts' steps') : parts = parts' ∧ steps = steps' := by
  induction h generalizing parts' steps' with
  | nil =>
    cases h' with
    | nil => exact ⟨rfl, rfl⟩
  | again ht _ ih =>
    cases h' with
    | again _ hrest' =>
      obtain ⟨rfl, rfl⟩ := ih hrest'
      exact ⟨rfl, rfl⟩
    | follow ht' => exact absurd ht ht'
  | follow ht _ _ ihend ihrest =>
    cases h' with
    | again ht' => exact absurd ht' ht
    | follow _ hend' hrest' =>
      obtain ⟨rfl, rfl⟩ := ihend hend'
      obtain ⟨rfl, rfl⟩ := ihrest hrest'
      exact ⟨rfl, rfl⟩

/-- No edge is followed twice, and none that was followed before. -/
theorem nodup (h : k.Walk nested ts followed parts steps) :
    steps.Nodup ∧ ∀ s ∈ steps, s ∉ followed := by
  induction h with
  | nil => exact ⟨List.nodup_nil, by simp⟩
  | again _ _ ih => exact ih
  | @follow t ts followed beyond steps inner parts ht _ _ ihend ihrest =>
    obtain ⟨hbeyond, hnewBeyond⟩ := ihend
    obtain ⟨hsteps, hnewSteps⟩ := ihrest
    have hstep : t ∉ beyond := fun hmem => hnewBeyond t hmem (by simp)
    have hlater : ∀ s ∈ steps, s ∉ t :: beyond :=
      fun s hs hmem => hnewSteps s hs (List.mem_append_right _ hmem)
    constructor
    · rw [List.nodup_cons, List.mem_append, not_or, List.nodup_append]
      refine ⟨⟨hstep, fun hmem => hlater t hmem List.mem_cons_self⟩, hbeyond, hsteps, ?_⟩
      rintro s hs s' hs' rfl
      exact hlater s hs' (List.mem_cons_of_mem _ hs)
    · intro s hs hmem
      rcases List.mem_cons.mp hs with rfl | hs
      · exact ht hmem
      · rcases List.mem_append.mp hs with hs | hs
        · exact hnewBeyond s hs (List.mem_append_left _ hmem)
        · exact hnewSteps s hs (List.mem_append_left _ hmem)

/-- In the end the edges told, and all that leave the ends of edges followed, have been followed. -/
theorem closed (h : k.Walk nested ts followed parts steps) :
    (∀ s ∈ ts, s ∈ followed ++ steps) ∧
      ∀ s ∈ steps, ∀ v ∈ k.content s.object, v ∈ followed ++ steps := by
  induction h with
  | nil => simp
  | again ht _ ih =>
    obtain ⟨htold, hleft⟩ := ih
    refine ⟨fun s hs => ?_, hleft⟩
    rcases List.mem_cons.mp hs with rfl | hs
    · exact List.mem_append_left _ ht
    · exact htold s hs
  | @follow t ts followed beyond steps inner parts _ _ _ ihend ihrest =>
    obtain ⟨hbeyond, hleftBeyond⟩ := ihend
    obtain ⟨htold, hleft⟩ := ihrest
    -- the walk beyond the edge has followed only edges of the whole walk
    have hinside : ∀ s, s ∈ followed ++ [t] ++ beyond → s ∈ followed ++ t :: (beyond ++ steps) := by
      intro s hs
      simp only [List.mem_append, List.mem_cons, List.not_mem_nil, or_false] at hs ⊢
      rcases hs with (hs | hs) | hs
      · exact Or.inl hs
      · exact Or.inr (Or.inl hs)
      · exact Or.inr (Or.inr (Or.inl hs))
    have hafter : ∀ s, s ∈ followed ++ t :: beyond ++ steps →
        s ∈ followed ++ t :: (beyond ++ steps) :=
      fun s hs => by simpa using hs
    constructor
    · intro s hs
      rcases List.mem_cons.mp hs with rfl | hs
      · exact List.mem_append_right _ List.mem_cons_self
      · exact hafter s (htold s hs)
    · intro s hs v hv
      rcases List.mem_cons.mp hs with rfl | hs
      · exact hinside v (hbeyond v hv)
      · rcases List.mem_append.mp hs with hs | hs
        · exact hinside v (hleftBeyond s hs v hv)
        · exact hafter v (hleft s hs v hv)

/-- Only edges are followed that leave an individual to which edges lead. -/
theorem meets (h : k.Walk nested ts followed parts steps) (hts : ∀ s ∈ ts, k.Meets x s) :
    ∀ s ∈ steps, k.Meets x s := by
  induction h with
  | nil => simp
  | again _ _ ih => exact ih fun s hs => hts s (List.mem_cons_of_mem _ hs)
  | @follow t ts followed beyond steps inner parts _ _ _ ihend ihrest =>
    have ht := hts t List.mem_cons_self
    have hends : ∀ s ∈ k.content t.object, k.Meets x s := by
      intro s hs
      obtain ⟨y, hy, hty⟩ := ht
      exact ⟨t.object, hy.tail ⟨t, hty, rfl⟩, hs⟩
    intro s hs
    rcases List.mem_cons.mp hs with rfl | hs
    · exact ht
    · rcases List.mem_append.mp hs with hs | hs
      · exact ihend hends s hs
      · exact ihrest (fun s hs => hts s (List.mem_cons_of_mem _ hs)) s hs

/-- From an individual exactly those edges are followed to which edges lead from it. -/
theorem mem_iff_meets (h : k.Walk nested (k.content x) [] parts steps) :
    t ∈ steps ↔ k.Meets x t := by
  constructor
  · exact h.meets (fun s hs => ⟨x, .refl, hs⟩) t
  · obtain ⟨hfirst, hnext⟩ := h.closed
    have hall : ∀ y, ReflTransGen k.Leads x y → ∀ s ∈ k.content y, s ∈ steps := by
      intro y hy
      induction hy with
      | refl => exact hfirst
      | tail _ hlead ih =>
        obtain ⟨s, hs, rfl⟩ := hlead
        exact hnext s (ih s hs)
    rintro ⟨y, hy, ht⟩
    exact hall y hy t ht

end Walk

/-! ## Profiles -/

/-- The edges of an individual are told along a walk, for which the depth suffices. -/
theorem exists_walk_edgeParts (nested : Bool) {depth : Nat} (hts : ∀ s ∈ ts, s ∈ k.content x)
    (hroom : k.Room depth followed) :
    ∃ parts steps, k.Walk nested ts followed parts steps ∧
      edgeParts (k.describe nested depth nested) x (ts.map Triple.edge) followed =
        .ok (parts, followed ++ steps) ∧ k.Room depth (followed ++ steps) := by
  -- an edge that is followed takes one step of depth, the edges next to it none
  induction depth using Nat.strong_induction_on generalizing x ts followed with
  | _ depth ihdepth =>
    induction ts generalizing followed with
    | nil =>
      refine ⟨[], [], .nil, ?_⟩
      rw [List.append_nil]
      exact ⟨rfl, hroom⟩
    | cons t ts ih =>
      obtain ⟨-, hstored, hsubject, hreserved⟩ := mem_content.mp (hts t List.mem_cons_self)
      have hothers : ∀ s ∈ ts, s ∈ k.content x := fun s hs => hts s (List.mem_cons_of_mem _ hs)
      have hedge : (⟨x, t.predicate, t.object⟩ : Triple) = t := by rw [← hsubject]
      rw [List.map_cons, Triple.edge, edgeParts, if_neg (by simp [hreserved]), hedge]
      by_cases ht : t ∈ followed
      · obtain ⟨parts, steps, hwalk, hparts, hroom'⟩ := ih hothers hroom
        refine ⟨_, steps, .again ht hwalk, ?_, hroom'⟩
        rw [if_pos ht]
        exact bind_eq_ok_iff.mpr ⟨_, hparts, rfl⟩
      · obtain ⟨below, rfl, hroomInside⟩ := hroom.follow hstored ht
        obtain ⟨inner, beyond, hend, hinner, hroomBeyond⟩ :=
          ihdepth below (Nat.lt_succ_self below) (x := t.object) (fun _ => id) hroomInside
        have hsplit : followed ++ [t] ++ beyond = followed ++ t :: beyond := by simp
        rw [hsplit] at hinner hroomBeyond
        have hdescribed : k.describe nested (below + 1) nested t.object (followed ++ [t]) =
            .ok (k.assemble nested t.object inner, followed ++ t :: beyond) :=
          describe_of_edgeParts (Knows.of_object hstored) hinner
        obtain ⟨parts, steps, hrest, hparts, hroom'⟩ := ih hothers hroomBeyond.succ
        have hlist : followed ++ t :: beyond ++ steps = followed ++ t :: (beyond ++ steps) := by
          simp
        rw [hlist] at hparts hroom'
        refine ⟨_, _, .follow ht hend hrest, ?_, hroom'⟩
        rw [if_neg ht]
        exact bind_eq_ok_iff.mpr ⟨_, hdescribed, bind_eq_ok_iff.mpr ⟨_, hparts, rfl⟩⟩

theorem profile_of_not_knows {identity : Bool} (hx : ¬ k.Knows x) :
    k.profile x identity nested = .error (.unknownIndividual x) := by
  obtain ⟨hindividual, hmentioned⟩ := not_or.mp hx
  rw [profile, describe_succ (by simpa using hindividual), types, ifMentioned, if_neg hmentioned]
  rfl

end Knowledge

/-- The profile of what is known follows the edges along a walk that goes on, however deep that
leads, until each edge to which edges lead has been followed once. The only individual that is
refused is the one that was asked for, when it is no literal and nothing mentions it. -/
theorem profile_ends (k : Knowledge) (x : Term) (identity nested : Bool) :
    (k.Knows x → ∃ parts steps, k.Walk nested (k.content x) [] parts steps ∧ steps.Nodup ∧
      (∀ t, t ∈ steps ↔ k.Meets x t) ∧ steps.length ≤ k.store.size ∧
      k.profile x identity nested = .ok (k.assemble identity x parts)) ∧
    ∀ e, k.profile x identity nested = .error e ↔
      e = .unknownIndividual x ∧ x.isIndividual = true ∧ k.store.mentions x = false := by
  have hknown : k.Knows x → ∃ parts steps, k.Walk nested (k.content x) [] parts steps ∧
      steps.Nodup ∧ (∀ t, t ∈ steps ↔ k.Meets x t) ∧ steps.length ≤ k.store.size ∧
      k.profile x identity nested = .ok (k.assemble identity x parts) := by
    intro hx
    obtain ⟨parts, steps, hwalk, hparts, hroom⟩ :=
      Knowledge.exists_walk_edgeParts nested (fun _ => id) (Knowledge.Room.start k)
    refine ⟨parts, steps, hwalk, hwalk.nodup.1, fun t => hwalk.mem_iff_meets, ?_, ?_⟩
    · exact (List.subperm_of_subset hroom.nodup hroom.subset).length_le
    · exact Knowledge.profile_eq_ok_iff.mpr ⟨_, Knowledge.describe_of_edgeParts hx hparts⟩
  refine ⟨hknown, fun e => ?_⟩
  by_cases hx : k.Knows x
  · obtain ⟨parts, steps, -, -, -, -, hprofile⟩ := hknown hx
    rw [hprofile]
    constructor
    · intro h
      cases h
    · rintro ⟨-, hindividual, hmentioned⟩
      rw [hx.mentioned hindividual] at hmentioned
      cases hmentioned
  · rw [Knowledge.profile_of_not_knows hx]
    rw [Knowledge.Knows, not_or, Bool.not_eq_false, Bool.not_eq_true] at hx
    constructor
    · intro h
      exact ⟨(Except.error.inj h).symm, hx⟩
    · rintro ⟨rfl, -⟩
      rfl

/-! ### There and back

Two individuals lead to each other, the first one to the second in two ways. Beyond the edge back to
the first, the walk follows the other way before it is next; there it only says that there is a
value. -/

namespace BackAndForth

def there : Triple := ⟨.iri ⟨"a"⟩, .iri ⟨"p"⟩, .iri ⟨"b"⟩⟩

def back : Triple := ⟨.iri ⟨"b"⟩, .iri ⟨"q"⟩, .iri ⟨"a"⟩⟩

def other : Triple := ⟨.iri ⟨"a"⟩, .iri ⟨"r"⟩, .iri ⟨"b"⟩⟩

def knowledge : Knowledge := ⟨.ofList [there, back, other], 8⟩

theorem content_first : knowledge.content (.iri ⟨"a"⟩) = [there, other] := by decide

theorem content_second : knowledge.content (.iri ⟨"b"⟩) = [back] := by decide

theorem exists_walk_first :
    ∃ parts, knowledge.Walk false (knowledge.content (.iri ⟨"a"⟩)) [] parts
      [there, back, other] := by
  have hsecond : knowledge.Walk false [back] [there, back, other]
      [.someOf back.predicate .top] [] := .again (by decide) .nil
  rw [← content_second] at hsecond
  -- the first individual, met again: only the other way is new
  have hnew : other ∉ [there, back] := by decide
  have hother := Knowledge.Walk.follow hnew hsecond .nil
  have hfirst := Knowledge.Walk.again (show there ∈ [there, back] by decide) hother
  rw [← content_first] at hfirst
  have hback := Knowledge.Walk.follow (show back ∉ [there] by decide) hfirst .nil
  rw [← content_second] at hback
  have hlast : other ∈ [there, back, other] := by decide
  have hthere := Knowledge.Walk.follow (show there ∉ [] by decide) hback (.again hlast .nil)
  rw [content_first]
  exact ⟨_, hthere⟩

/-- The profile of the first individual, with its name. -/
def described : Expression :=
  let inner := .conj [.someOf (.iri ⟨"p"⟩) .top, .someOf (.iri ⟨"r"⟩) (.someOf (.iri ⟨"q"⟩) .top)]
  .conj [.nominal (.iri ⟨"a"⟩), .someOf (.iri ⟨"p"⟩) (.someOf (.iri ⟨"q"⟩) inner),
    .someOf (.iri ⟨"r"⟩) .top]

/-- Each of the three edges is followed once, and what nothing mentions is refused. -/
theorem profile_ends_first :
    knowledge.Knows (.iri ⟨"a"⟩) ∧
      (∃ parts, knowledge.Walk false (knowledge.content (.iri ⟨"a"⟩)) [] parts
          [there, back, other] ∧
        described = knowledge.assemble true (.iri ⟨"a"⟩) parts) ∧
      (∀ t, t ∈ [there, back, other] ↔ knowledge.Meets (.iri ⟨"a"⟩) t) ∧
      knowledge.profile (.iri ⟨"a"⟩) true false = .ok described ∧
      knowledge.profile (.iri ⟨"c"⟩) true false = .error (.unknownIndividual (.iri ⟨"c"⟩)) := by
  have hknown : knowledge.Knows (.iri ⟨"a"⟩) := Or.inr (by decide)
  have hprofile : knowledge.profile (.iri ⟨"a"⟩) true false = .ok described := rfl
  obtain ⟨parts, steps, hwalk, -, hmeets, -, hresult⟩ :=
    (profile_ends knowledge (.iri ⟨"a"⟩) true false).1 hknown
  obtain ⟨_, hfirst⟩ := exists_walk_first
  obtain ⟨-, rfl⟩ := hwalk.unique hfirst
  have hdescribed := Except.ok.inj (hprofile.symm.trans hresult)
  have hunknown := ((profile_ends knowledge (.iri ⟨"c"⟩) true false).2 _).mpr
    ⟨rfl, rfl, show knowledge.store.mentions (.iri ⟨"c"⟩) = false by decide⟩
  exact ⟨hknown, ⟨parts, hwalk, hdescribed⟩, hmeets, hprofile, hunknown⟩

end BackAndForth

end GraphConformance
