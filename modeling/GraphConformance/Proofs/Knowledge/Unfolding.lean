import GraphConformance.Knowledge.Basic
import Mathlib.Data.Fintype.Card
import Mathlib.Data.Fintype.EquivFin
import Mathlib.Data.List.Nodup
import Mathlib.Logic.Relation

/-!
# Trees of edges

Where no directed cycle of edges is met, the edges from an individual unfold into a finite tree:
each edge, what lies beyond it, and the edges next to it (`Unfolding`,
`isAcyclic_iff_exists_unfolds`). A walk of the tree, depth first, meets the edges of all individuals
to which edges lead. It meets an edge twice only when some individual that has edges is reached by
two of them (`nodup_walk`).
-/

set_option autoImplicit false

namespace GraphConformance

open Relation

/-! ## Edges and the tree that they unfold into -/

/-- Edges next to each other, each with what lies beyond it. -/
inductive Unfolding where
  | nil
  | cons (edge : Triple) (beyond rest : Unfolding)

/-- The edges in the order of a walk, depth first. -/
def Unfolding.walk : Unfolding → List Triple
  | nil => []
  | cons edge beyond rest => edge :: (beyond.walk ++ rest.walk)

namespace Knowledge

/-- The edges of an individual that do not describe structure. -/
def content (k : Knowledge) (x : Term) : List Triple :=
  if x.isIndividual then
    k.store.triples.filter fun t => t.subject = x ∧ t.predicate.isReserved = false
  else []

/-- Some edge leads from the first individual to the second. -/
def Leads (k : Knowledge) (x y : Term) : Prop := ∃ t ∈ k.content x, t.object = y

/-- Neither the individual nor one that edges lead to has a way back to itself. -/
def IsAcyclic (k : Knowledge) (x : Term) : Prop :=
  ∀ y, ReflTransGen k.Leads x y → ¬ TransGen k.Leads y y

/-- The edge leaves the individual, or another one that edges lead to. -/
def Meets (k : Knowledge) (x : Term) (t : Triple) : Prop :=
  ∃ y, ReflTransGen k.Leads x y ∧ t ∈ k.content y

/-- Two different edges to one individual lead to one without edges of its own. -/
def Unshared (k : Knowledge) (x : Term) : Prop :=
  ∀ t s, k.Meets x t → k.Meets x s → t.object = s.object → t = s ∨ k.content t.object = []

/-- The edges of a list unfold into a tree. -/
inductive Unfolds (k : Knowledge) : List Triple → Unfolding → Prop where
  | nil : Unfolds k [] .nil
  | cons {t : Triple} {ts : List Triple} {beyond rest : Unfolding}
      (hbeyond : Unfolds k (k.content t.object) beyond) (hrest : Unfolds k ts rest) :
      Unfolds k (t :: ts) (.cons t beyond rest)

variable {k : Knowledge} {x y : Term} {t s : Triple} {ts : List Triple} {u u' : Unfolding}

theorem mem_content :
    t ∈ k.content x ↔ x.isIndividual = true ∧ t ∈ k.store.triples ∧ t.subject = x ∧
      t.predicate.isReserved = false := by
  rw [content]
  split
  · rename_i hx
    simp [hx]
  · rename_i hx
    simp [hx]

theorem nodup_content (k : Knowledge) (x : Term) : (k.content x).Nodup := by
  rw [content]
  split
  · exact k.store.nodup.filter _
  · exact List.nodup_nil

/-! ## Trees of edges -/

namespace Unfolds

/-- Edges unfold into one tree at most. -/
theorem unique (h : k.Unfolds ts u) (h' : k.Unfolds ts u') : u = u' := by
  induction h generalizing u' with
  | nil =>
    cases h' with
    | nil => rfl
  | cons _ _ ihbeyond ihrest =>
    cases h' with
    | cons hbeyond' hrest' => rw [ihbeyond hbeyond', ihrest hrest']

/-- A property of the first edges that passes on to the edges beyond holds of all edges walked. -/
theorem walk_induction {P : Triple → Prop} (h : k.Unfolds ts u) (first : ∀ t ∈ ts, P t)
    (step : ∀ t ∈ u.walk, P t → ∀ s ∈ k.content t.object, P s) : ∀ t ∈ u.walk, P t := by
  induction h with
  | nil => simp [Unfolding.walk]
  | cons hbeyond hrest ihbeyond ihrest =>
    rename_i t ts beyond rest
    have ht := first t List.mem_cons_self
    intro s hs
    rcases List.mem_cons.mp hs with rfl | hs
    · exact ht
    · rcases List.mem_append.mp hs with hs | hs
      · refine ihbeyond (step t List.mem_cons_self ht) ?_ s hs
        exact fun v hv => step v (List.mem_cons_of_mem _ (List.mem_append_left _ hv))
      · refine ihrest (fun v hv => first v (List.mem_cons_of_mem _ hv)) ?_ s hs
        exact fun v hv => step v (List.mem_cons_of_mem _ (List.mem_append_right _ hv))

/-- The first edges are walked. -/
theorem mem_walk (h : k.Unfolds ts u) (ht : t ∈ ts) : t ∈ u.walk := by
  induction h with
  | nil => exact absurd ht (by simp)
  | cons hbeyond hrest ihbeyond ihrest =>
    rcases List.mem_cons.mp ht with rfl | ht
    · exact List.mem_cons_self
    · exact List.mem_cons_of_mem _ (List.mem_append_right _ (ihrest ht))

/-- What lies beyond an edge that is walked is a smaller tree, and is walked as well. -/
theorem exists_beyond (h : k.Unfolds ts u) (hs : s ∈ u.walk) :
    ∃ beyond, k.Unfolds (k.content s.object) beyond ∧ beyond.walk ⊆ u.walk ∧
      sizeOf beyond < sizeOf u := by
  induction h with
  | nil => exact absurd hs (by simp [Unfolding.walk])
  | cons hbeyond hrest ihbeyond ihrest =>
    rename_i t ts beyond rest
    have hlarger : beyond.walk ⊆ (Unfolding.cons t beyond rest).walk ∧
        rest.walk ⊆ (Unfolding.cons t beyond rest).walk :=
      ⟨fun v hv => List.mem_cons_of_mem _ (List.mem_append_left _ hv),
        fun v hv => List.mem_cons_of_mem _ (List.mem_append_right _ hv)⟩
    have hsize : sizeOf (Unfolding.cons t beyond rest) =
        1 + sizeOf t + sizeOf beyond + sizeOf rest := rfl
    rcases List.mem_cons.mp hs with rfl | hs
    · exact ⟨beyond, hbeyond, hlarger.1, by omega⟩
    · rcases List.mem_append.mp hs with hs | hs
      · obtain ⟨inner, hinner, hwalk, hless⟩ := ihbeyond hs
        exact ⟨inner, hinner, List.Subset.trans hwalk hlarger.1, by omega⟩
      · obtain ⟨inner, hinner, hwalk, hless⟩ := ihrest hs
        exact ⟨inner, hinner, List.Subset.trans hwalk hlarger.2, by omega⟩

/-- No edge lies beyond itself. -/
theorem not_mem_walk (h : k.Unfolds (k.content t.object) u) : t ∉ u.walk := by
  intro ht
  obtain ⟨inner, hinner, -, hless⟩ := h.exists_beyond ht
  rw [hinner.unique h] at hless
  exact Nat.lt_irrefl _ hless

/-- An edge that is walked is one of the first edges, or leaves the end of an edge walked. -/
theorem mem_or_exists (h : k.Unfolds ts u) (hs : s ∈ u.walk) :
    s ∈ ts ∨ ∃ t ∈ u.walk, s ∈ k.content t.object :=
  h.walk_induction (P := fun s => s ∈ ts ∨ ∃ t ∈ u.walk, s ∈ k.content t.object)
    (fun _ => Or.inl) (fun t ht _ _ hs => Or.inr ⟨t, ht, hs⟩) s hs

/-- The edges that are walked from an individual lead away from it. -/
theorem leads_of_mem_walk (h : k.Unfolds ts u) (hts : ∀ t ∈ ts, t ∈ k.content y)
    (hs : s ∈ u.walk) : TransGen k.Leads y s.object :=
  h.walk_induction (P := fun s => TransGen k.Leads y s.object)
    (fun t ht => .single ⟨t, hts t ht, rfl⟩) (fun _ _ hy s hs => hy.tail ⟨s, hs, rfl⟩) s hs

/-- Every edge that is walked leaves an individual that edges lead to. -/
theorem meets (h : k.Unfolds ts u) (hy : ReflTransGen k.Leads x y)
    (hts : ∀ t ∈ ts, t ∈ k.content y) (hs : s ∈ u.walk) : k.Meets x s := by
  rcases h.mem_or_exists hs with hs | ⟨t, ht, hs⟩
  · exact ⟨y, hy, hts s hs⟩
  · exact ⟨t.object, hy.trans (h.leads_of_mem_walk hts ht).to_reflTransGen, hs⟩

end Unfolds

/-! ## Without cycles there is a tree -/

/-- The individuals that edges lead to are finitely many. -/
theorem finite_reachable (k : Knowledge) (x : Term) :
    Finite {y // ReflTransGen k.Leads x y} := by
  apply Finite.of_injective (β := {y // y ∈ x :: k.store.triples.map Triple.object})
    (fun y => ⟨y.1, ?_⟩)
  · intro a b hab
    exact Subtype.ext (Subtype.mk.inj hab)
  · obtain ⟨y, hy⟩ := y
    rcases hy.cases_tail with rfl | ⟨z, -, t, ht, rfl⟩
    · exact List.mem_cons_self
    · exact List.mem_cons_of_mem _ (List.mem_map.mpr ⟨t, (mem_content.mp ht).2.1, rfl⟩)

/-- The edges of an individual without cycles unfold. -/
theorem exists_unfolds (h : k.IsAcyclic x) : ∃ u, k.Unfolds (k.content x) u := by
  let Reachable := {y // ReflTransGen k.Leads x y}
  have : Finite Reachable := k.finite_reachable x
  -- what is reached from an individual lies below it
  let below (a b : Reachable) : Prop := TransGen k.Leads b.1 a.1
  have htrans : IsTrans Reachable below := ⟨fun _ _ _ hab hbc => hbc.trans hab⟩
  have hirrefl : Std.Irrefl below := ⟨fun a => h a.1 a.2⟩
  have hwf : WellFounded below := Finite.wellFounded_of_trans_of_irrefl below
  have hall : ∀ a : Reachable, ∃ u, k.Unfolds (k.content a.1) u := by
    intro a
    induction a using hwf.induction with
    | _ a ih =>
      -- the edges of one individual unfold one after another
      have hlist : ∀ ts : List Triple, ts ⊆ k.content a.1 → ∃ u, k.Unfolds ts u := by
        intro ts
        induction ts with
        | nil => exact fun _ => ⟨.nil, .nil⟩
        | cons t ts ihts =>
          intro hts
          have ht : k.Leads a.1 t.object := ⟨t, hts List.mem_cons_self, rfl⟩
          obtain ⟨rest, hrest⟩ := ihts fun s hs => hts (List.mem_cons_of_mem _ hs)
          obtain ⟨beyond, hbeyond⟩ := ih ⟨t.object, a.2.tail ht⟩ (.single ht)
          exact ⟨.cons t beyond rest, .cons hbeyond hrest⟩
      exact hlist _ fun _ => id
  exact hall ⟨x, .refl⟩

/-- Edges lead to smaller trees, which are walked as well. -/
theorem Unfolds.exists_of_leads (h : k.Unfolds (k.content x) u) (hy : TransGen k.Leads x y) :
    ∃ u', k.Unfolds (k.content y) u' ∧ u'.walk ⊆ u.walk ∧ sizeOf u' < sizeOf u := by
  have hstep : ∀ {z w : Term} {v : Unfolding}, k.Unfolds (k.content z) v → k.Leads z w →
      ∃ v', k.Unfolds (k.content w) v' ∧ v'.walk ⊆ v.walk ∧ sizeOf v' < sizeOf v := by
    rintro z w v hv ⟨t, ht, rfl⟩
    exact hv.exists_beyond (hv.mem_walk ht)
  induction hy with
  | single hlead => exact hstep h hlead
  | tail _ hlead ih =>
    obtain ⟨v, hv, hwalk, hless⟩ := ih
    obtain ⟨v', hv', hwalk', hless'⟩ := hstep hv hlead
    exact ⟨v', hv', List.Subset.trans hwalk' hwalk, Nat.lt_trans hless' hless⟩

theorem Unfolds.exists_of_reaches (h : k.Unfolds (k.content x) u) (hy : ReflTransGen k.Leads x y) :
    ∃ u', k.Unfolds (k.content y) u' ∧ u'.walk ⊆ u.walk := by
  rcases reflTransGen_iff_eq_or_transGen.mp hy with rfl | hy
  · exact ⟨u, h, List.Subset.refl _⟩
  · obtain ⟨u', hu', hwalk, -⟩ := h.exists_of_leads hy
    exact ⟨u', hu', hwalk⟩

/-- The edges of the tree are those that leave individuals to which edges lead. -/
theorem Unfolds.meets_iff_mem_walk (h : k.Unfolds (k.content x) u) :
    k.Meets x t ↔ t ∈ u.walk := by
  constructor
  · rintro ⟨y, hy, ht⟩
    obtain ⟨u', hu', hwalk⟩ := h.exists_of_reaches hy
    exact hwalk (hu'.mem_walk ht)
  · exact h.meets .refl (fun _ => id)

/-- The edges from an individual unfold exactly when they have no cycle. -/
theorem isAcyclic_iff_exists_unfolds : k.IsAcyclic x ↔ ∃ u, k.Unfolds (k.content x) u := by
  constructor
  · exact exists_unfolds
  · rintro ⟨u, hu⟩ y hy hcycle
    -- on a cycle, the tree of an individual would be smaller than itself
    obtain ⟨v, hv, -⟩ := hu.exists_of_reaches hy
    obtain ⟨v', hv', -, hless⟩ := hv.exists_of_leads hcycle
    rw [hv'.unique hv] at hless
    exact Nat.lt_irrefl _ hless

/-! ## Edges that come up once -/

theorem subject_of_mem_content (ht : t ∈ k.content x) : t.subject = x := (mem_content.mp ht).2.2.1

/-- An edge of y that is not among the first edges is not walked after them, without a way back
to y. -/
theorem Unfolds.not_mem_walk_of_not_mem (h : k.Unfolds ts u) (hback : ¬ TransGen k.Leads y y)
    (hts : ∀ t ∈ ts, t ∈ k.content y) (hs : s ∈ k.content y) (hnew : s ∉ ts) : s ∉ u.walk := by
  intro hmem
  rcases h.mem_or_exists hmem with hmem | ⟨v, hv, hmem⟩
  · exact hnew hmem
  · have hvy : v.object = y := (subject_of_mem_content hmem).symm.trans (subject_of_mem_content hs)
    have hreach := h.leads_of_mem_walk hts hv
    rw [hvy] at hreach
    exact hback hreach

/-- Beyond an edge that is not walked from y, nothing is walked from y, where edges meet only at
individuals without edges. -/
theorem Unfolds.not_mem_walk_of_mem_content (h : k.Unfolds ts u) (hunshared : k.Unshared x)
    (hy : ReflTransGen k.Leads x y) (hback : ¬ TransGen k.Leads y y)
    (hts : ∀ t ∈ ts, t ∈ k.content y) (ht : k.Meets x t) (hyt : TransGen k.Leads y t.object)
    (hnot : t ∉ u.walk) : ∀ s ∈ k.content t.object, s ∉ u.walk := by
  intro s hs hmem
  rcases h.mem_or_exists hmem with hmem | ⟨v, hv, hmem⟩
  · have hend : t.object = y :=
      (subject_of_mem_content hs).symm.trans (subject_of_mem_content (hts s hmem))
    rw [hend] at hyt
    exact hback hyt
  · have hend : t.object = v.object :=
      (subject_of_mem_content hs).symm.trans (subject_of_mem_content hmem)
    rcases hunshared t v ht (h.meets hy hts hv) hend with rfl | hnone
    · exact hnot hv
    · rw [hnone] at hs
      exact absurd hs (by simp)

/-- Where edges meet only at individuals without edges, no edge comes up twice. -/
theorem nodup_walk (hacyclic : k.IsAcyclic x) (hunshared : k.Unshared x) (h : k.Unfolds ts u)
    (hy : ReflTransGen k.Leads x y) (hts : ∀ t ∈ ts, t ∈ k.content y) (hnodup : ts.Nodup) :
    u.walk.Nodup := by
  induction h generalizing y with
  | nil => exact List.nodup_nil
  | cons hbeyond hrest ihbeyond ihrest =>
    rename_i t ts beyond rest
    obtain ⟨hnew, hnodup'⟩ := List.nodup_cons.mp hnodup
    have ht := hts t List.mem_cons_self
    have hothers : ∀ s ∈ ts, s ∈ k.content y := fun s hs => hts s (List.mem_cons_of_mem _ hs)
    have hlead : k.Leads y t.object := ⟨t, ht, rfl⟩
    have hend : ReflTransGen k.Leads x t.object := hy.tail hlead
    have hback := hacyclic y hy
    have hrestEdge : t ∉ rest.walk := hrest.not_mem_walk_of_not_mem hback hothers ht hnew
    -- what is not walked in the rest passes on to the edges beyond
    have hdisjoint : ∀ s ∈ beyond.walk, s ∉ rest.walk := by
      apply hbeyond.walk_induction (P := (· ∉ rest.walk))
      · exact hrest.not_mem_walk_of_mem_content hunshared hy hback hothers ⟨y, hy, ht⟩
          (.single hlead) hrestEdge
      · intro e he hnot
        have hreach := hbeyond.leads_of_mem_walk (fun _ => id) he
        exact hrest.not_mem_walk_of_mem_content hunshared hy hback hothers
          (hbeyond.meets hend (fun _ => id) he) (.head hlead hreach) hnot
    rw [Unfolding.walk, List.nodup_cons, List.mem_append, not_or, List.nodup_append]
    refine ⟨⟨hbeyond.not_mem_walk, hrestEdge⟩, ihbeyond hend (fun _ => id) (k.nodup_content _),
      ihrest hy hothers hnodup', ?_⟩
    rintro s hs v hv rfl
    exact hdisjoint s hs hv

end Knowledge

end GraphConformance
