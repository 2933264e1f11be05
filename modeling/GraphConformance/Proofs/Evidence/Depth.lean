import GraphConformance.Proofs.Evidence.Memory
import GraphConformance.Proofs.Store.Queries
import GraphConformance.Knowledge.Basic
import Mathlib.Data.Finset.Prod

/-!
# The depth of definitions suffices

A definition is unfolded only for a pair of a class that occurs in the store and an individual that
is given or an object in the store, and only when that pair was not in progress. So the depth that
is left and the pairs in progress together never fall below the number of such pairs
(`Suffices`): where a definition is to be unfolded, some depth is left (`Suffices.unfold`).
-/

set_option autoImplicit false

namespace GraphConformance

open Vocabulary Evidence

/-- The pairs in progress are those of a set. -/
def Evidence.Memo.Pending (m : Memo) (S : Finset (Expression × Term)) : Prop :=
  ∀ p, m.known p = some .inProgress ↔ p ∈ S

namespace Evidence.Memo.Pending

variable {m : Memo} {S : Finset (Expression × Term)}

theorem empty : Memo.empty.Pending ∅ := by
  intro p
  simp [known_empty]

theorem start (h : m.Pending S) (p : Expression × Term) : (m.start p).Pending (insert p S) := by
  intro q
  rw [known_start, Finset.mem_insert]
  by_cases hq : q = p
  · simp [hq]
  · simp [hq, h q]

theorem finish {e : Expression} {x : Term} (h : m.Pending (insert (e, x) S)) (hn : (e, x) ∉ S)
    (verdict : Verdict) : (m.finish e x verdict).Pending S := by
  intro q
  rw [known_finish]
  by_cases hq : q = (e, x)
  · subst hq
    simp [hn]
  · simp [hq, h q]

theorem not_mem (h : m.Pending S) {p : Expression × Term} (hp : m.known p = none) : p ∉ S := by
  intro hm
  exact absurd (hp.symm.trans ((h p).mpr hm)) (by simp)

end Evidence.Memo.Pending

namespace Knowledge

variable {k : Knowledge} {given : Term}

/-- The individuals that questions about a given one lead to. -/
def individuals (k : Knowledge) (given : Term) : List Term :=
  given :: k.store.triples.map Triple.object

/-- The classes that a definition may be of. -/
def classes (k : Knowledge) : List Expression :=
  (k.store.triples.map Triple.subject ++ k.store.triples.map Triple.object).map .concept

/-- The pairs for which a definition may be unfolded. -/
def definedPairs (k : Knowledge) (given : Term) : Finset (Expression × Term) :=
  k.classes.toFinset ×ˢ (k.individuals given).toFinset

theorem card_definedPairs_le (k : Knowledge) (given : Term) :
    (k.definedPairs given).card ≤ k.reasoner.definedPairs := by
  have hclasses : k.classes.toFinset.card ≤ 2 * k.store.size := by
    refine (List.toFinset_card_le _).trans ?_
    rw [classes, List.length_map, List.length_append, List.length_map, List.length_map, Store.size]
    omega
  have hindividuals : (k.individuals given).toFinset.card ≤ k.store.size + 1 := by
    refine (List.toFinset_card_le _).trans ?_
    rw [individuals, List.length_cons, List.length_map, Store.size]
  rw [definedPairs, Finset.card_product]
  exact Nat.mul_le_mul hclasses hindividuals

theorem mem_individuals_of_values? {p x v : Term} {vs : List Term}
    (h : k.reasoner.values? p x = some vs) (hv : v ∈ vs) : v ∈ k.individuals given := by
  rw [individuals]
  apply List.mem_cons_of_mem
  have hedges : ∀ y, (k.edges y).toOption.map (fun edges =>
      (edges.filter (·.1 = p)).map Prod.snd) = some vs →
        v ∈ k.store.triples.map Triple.object := by
    intro y hy
    unfold edges ifMentioned at hy
    split at hy
    · rw [Except.toOption, Option.map_some, Option.some.injEq] at hy
      subst hy
      obtain ⟨edge, hedge, rfl⟩ := List.mem_map.mp hv
      exact List.mem_map.mpr ⟨_, Store.mem_outgoing.mp (List.mem_of_mem_filter hedge), rfl⟩
    · exact absurd hy (by simp [Except.toOption])
  cases x with
  | literal l =>
    obtain rfl : [] = vs := Option.some.inj h
    exact absurd hv (by simp)
  | iri i => exact hedges (.iri i) h
  | blank b => exact hedges (.blank b) h

theorem mem_individuals_of_part {e e' : Expression} {x x' : Term}
    (h : k.reasoner.Part e x e' x') (hx : x ∈ k.individuals given) :
    x' ∈ k.individuals given := by
  cases h with
  | conj h => exact hx
  | disj h => exact hx
  | compl => exact hx
  | someOf h hv => exact mem_individuals_of_values? h hv
  | onlyOf h hv => exact mem_individuals_of_values? h hv

theorem concept_mem_classes {t : Triple} (ht : t ∈ k.store.triples) :
    .concept t.subject ∈ k.classes ∧ .concept t.object ∈ k.classes :=
  ⟨List.mem_map.mpr ⟨_, List.mem_append_left _ (List.mem_map.mpr ⟨t, ht, rfl⟩), rfl⟩,
    List.mem_map.mpr ⟨_, List.mem_append_right _ (List.mem_map.mpr ⟨t, ht, rfl⟩), rfl⟩⟩

theorem mem_classes_of_definition {e d : Expression} (h : k.reasoner.Definition e d) :
    e ∈ k.classes := by
  cases h with
  | superClass h =>
    obtain ⟨o, ho, -⟩ := List.mem_map.mp h
    exact (concept_mem_classes (Store.mem_objects.mp ho)).1
  | equivalent h =>
    obtain ⟨o, ho, -⟩ := List.mem_map.mp (Distinct.mem_dedup.mp h)
    rcases List.mem_append.mp ho with ho | ho
    · exact (concept_mem_classes (Store.mem_objects.mp ho)).1
    · exact (concept_mem_classes (Store.mem_subjects.mp ho)).2

/-! ## Depth -/

/-- The depth reaches for the definitions of all pairs that are not in progress. -/
def Suffices (k : Knowledge) (given : Term) (S : Finset (Expression × Term)) (depth : Nat) :
    Prop :=
  (k.definedPairs given).card ≤ depth + (k.definedPairs given ∩ S).card

theorem suffices_start (k : Knowledge) (given : Term) :
    k.Suffices given ∅ k.reasoner.definedPairs := by
  rw [Suffices, Finset.inter_empty, Finset.card_empty]
  exact k.card_definedPairs_le given

namespace Suffices

variable {S : Finset (Expression × Term)} {depth : Nat}

theorem insert (h : k.Suffices given S depth) (p : Expression × Term) :
    k.Suffices given (insert p S) depth := by
  have hsub : k.definedPairs given ∩ S ⊆ k.definedPairs given ∩ Insert.insert p S :=
    Finset.inter_subset_inter_left (Finset.subset_insert p S)
  have := Finset.card_le_card hsub
  unfold Suffices at h ⊢
  omega

/-- Where a definition is to be unfolded, some depth is left. -/
theorem unfold (h : k.Suffices given S depth) {e d : Expression} {x : Term}
    (hd : k.reasoner.Definition e d) (hx : x ∈ k.individuals given) (hn : (e, x) ∉ S) :
    ∃ below, depth = below + 1 ∧ k.Suffices given (Insert.insert (e, x) S) below := by
  have hmem : (e, x) ∈ k.definedPairs given := by
    rw [definedPairs, Finset.mem_product, List.mem_toFinset, List.mem_toFinset]
    exact ⟨mem_classes_of_definition hd, hx⟩
  -- the pair counts among those in progress from now on, which pays for the depth
  have hins : k.definedPairs given ∩ Insert.insert (e, x) S =
      Insert.insert (e, x) (k.definedPairs given ∩ S) := Finset.inter_insert_of_mem hmem
  have hcard : (k.definedPairs given ∩ Insert.insert (e, x) S).card =
      (k.definedPairs given ∩ S).card + 1 := by
    rw [hins, Finset.card_insert_of_notMem]
    exact fun hm => hn (Finset.mem_inter.mp hm).2
  have hle : (k.definedPairs given ∩ Insert.insert (e, x) S).card ≤ (k.definedPairs given).card :=
    Finset.card_le_card Finset.inter_subset_left
  unfold Suffices at h ⊢
  exact ⟨depth - 1, by omega, by omega⟩

end Suffices

end Knowledge

end GraphConformance
