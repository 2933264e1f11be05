import GraphConformance.Knowledge.Basic
import GraphConformance.Proofs.Store.Queries

/-!
# Questions that are answered

A knowledge base answers every question about what its store mentions, and of a literal nothing is
asked. What is known in this sense (`Knowledge.Knows`) includes every object of the store, so a walk
along its edges never meets a question that is refused.
-/

set_option autoImplicit false

namespace GraphConformance

theorem Term.exists_literal {x : Term} (h : x.isIndividual = false) : ∃ l, x = .literal l := by
  cases x with
  | literal l => exact ⟨l, rfl⟩
  | iri i => exact absurd h (by simp [isIndividual])
  | blank b => exact absurd h (by simp [isIndividual])

theorem bind_eq_ok_iff {ε α β : Type} {answer : Except ε α} {f : α → Except ε β} {b : β} :
    answer >>= f = .ok b ↔ ∃ a, answer = .ok a ∧ f a = .ok b := by
  cases answer with
  | error e => simp [bind, Except.bind]
  | ok a => simp [bind, Except.bind]

namespace Knowledge

variable {k : Knowledge}

theorem ifMentioned_eq_ok_iff {α : Type} {x : Term} {answer a : α} :
    k.ifMentioned x answer = .ok a ↔ k.store.mentions x = true ∧ answer = a := by
  by_cases h : k.store.mentions x = true
  · simp [ifMentioned, h]
  · simp [ifMentioned, h]

/-- The term is a literal, or the store mentions it. -/
def Knows (k : Knowledge) (x : Term) : Prop := x.isIndividual = false ∨ k.store.mentions x = true

theorem Knows.mentioned {x : Term} (h : k.Knows x) (hx : x.isIndividual = true) :
    k.store.mentions x = true :=
  h.resolve_left (by simp [hx])

theorem Knows.of_object {t : Triple} (ht : t ∈ k.store.triples) : k.Knows t.object :=
  Or.inr (Store.mentions_iff.mpr ⟨t, ht, Or.inr (Or.inr rfl)⟩)

end Knowledge

end GraphConformance
