import GraphConformance.Expression.Display
import GraphConformance.Table
import Mathlib.Data.List.Forall2
import Mathlib.Logic.Embedding.Basic

/-!
# Renamed blank nodes

A term, a triple or an expression is renamed by putting other nodes in place of its blank nodes.
Where no two nodes get one name, renaming is injective, and so it commutes with whatever looks at
terms through equality alone: lists without repetition and tables.

Explanations show terms as they are written, so a renamed term shows in them. `Reworded` relates two
texts that are the same apart from the terms that they show.
-/

set_option autoImplicit false

namespace GraphConformance

/-! ## Terms and triples -/

/-- The term with another node in place of its blank node. -/
def Term.rename (f : BlankNode → BlankNode) : Term → Term
  | .blank b => .blank (f b)
  | t => t

/-- The triple with other nodes in place of its blank nodes. -/
def Triple.rename (f : BlankNode → BlankNode) (t : Triple) : Triple :=
  ⟨t.subject.rename f, t.predicate.rename f, t.object.rename f⟩

/-- The node with another number and the same label. -/
def BlankNode.renumber (f : Nat ↪ Nat) : BlankNode ↪ BlankNode where
  toFun b := ⟨f b.id, b.label⟩
  inj' := by
    rintro ⟨i, l⟩ ⟨j, m⟩ h
    obtain ⟨hid, hlabel⟩ := BlankNode.mk.inj h
    rw [BlankNode.mk.injEq]
    exact ⟨f.injective hid, hlabel⟩

theorem Term.eq_of_rename_eq {f : BlankNode → BlankNode} {x y : Term}
    (hf : ∀ b b', x = .blank b → y = .blank b' → f b = f b' → b = b')
    (h : x.rename f = y.rename f) : x = y := by
  cases x with
  | blank b =>
    cases y with
    | blank b' => rw [hf b b' rfl rfl (Term.blank.inj h)]
    | iri i => cases h
    | literal l => cases h
  | iri i =>
    cases y with
    | blank b' => cases h
    | iri j => exact h
    | literal l => cases h
  | literal l =>
    cases y with
    | blank b' => cases h
    | iri j => cases h
    | literal l' => exact h

theorem Triple.eq_of_rename_eq {f : BlankNode → BlankNode} {t u : Triple}
    (hf : ∀ b b', .blank b ∈ [t.subject, t.predicate, t.object] →
      .blank b' ∈ [u.subject, u.predicate, u.object] → f b = f b' → b = b')
    (h : t.rename f = u.rename f) : t = u := by
  have hterm : ∀ x ∈ [t.subject, t.predicate, t.object], ∀ y ∈ [u.subject, u.predicate, u.object],
      x.rename f = y.rename f → x = y :=
    fun x hx y hy => Term.eq_of_rename_eq fun b b' hb hb' => hf b b' (hb ▸ hx) (hb' ▸ hy)
  obtain ⟨s, p, o⟩ := t
  obtain ⟨s', p', o'⟩ := u
  obtain ⟨hs, hp, ho⟩ := Triple.mk.inj h
  rw [hterm s (by simp) s' (by simp) hs, hterm p (by simp) p' (by simp) hp,
    hterm o (by simp) o' (by simp) ho]

section Terms

variable {ρ : BlankNode ↪ BlankNode}

@[simp]
theorem Term.rename_iri (f : BlankNode → BlankNode) (i : Iri) :
    (Term.iri i).rename f = .iri i := rfl

@[simp]
theorem Term.rename_literal (f : BlankNode → BlankNode) (l : Literal) :
    (Term.literal l).rename f = .literal l := rfl

@[simp]
theorem Term.rename_blank (f : BlankNode → BlankNode) (b : BlankNode) :
    (Term.blank b).rename f = .blank (f b) := rfl

theorem Term.rename_injective (ρ : BlankNode ↪ BlankNode) : Function.Injective (Term.rename ρ) :=
  fun _ _ => Term.eq_of_rename_eq fun _ _ _ _ h => ρ.injective h

theorem Triple.rename_injective (ρ : BlankNode ↪ BlankNode) :
    Function.Injective (Triple.rename ρ) :=
  fun _ _ => Triple.eq_of_rename_eq fun _ _ _ _ h => ρ.injective h

@[simp]
theorem Term.rename_inj {x y : Term} : x.rename ρ = y.rename ρ ↔ x = y :=
  (Term.rename_injective ρ).eq_iff

@[simp]
theorem Term.rename_eq_iri {f : BlankNode → BlankNode} {x : Term} {i : Iri} :
    x.rename f = .iri i ↔ x = .iri i := by
  cases x <;> simp

@[simp]
theorem Term.isIndividual_rename (f : BlankNode → BlankNode) (x : Term) :
    (x.rename f).isIndividual = x.isIndividual := by
  cases x <;> rfl

@[simp]
theorem Term.isAnonymous_rename (f : BlankNode → BlankNode) (x : Term) :
    (x.rename f).isAnonymous = x.isAnonymous := by
  cases x <;> rfl

@[simp]
theorem Term.isIri_rename (f : BlankNode → BlankNode) (x : Term) :
    (x.rename f).isIri = x.isIri := by
  cases x <;> rfl

@[simp]
theorem Term.isReserved_rename (f : BlankNode → BlankNode) (x : Term) :
    (x.rename f).isReserved = x.isReserved := by
  cases x <;> rfl

end Terms

/-! ## Expressions -/

namespace Expression

mutual

/-- The expression with other nodes in place of its blank nodes. -/
def rename (f : BlankNode → BlankNode) : Expression → Expression
  | top => top
  | bottom => bottom
  | concept c => concept (c.rename f)
  | conj parts => conj (renameParts f parts)
  | disj parts => disj (renameParts f parts)
  | compl part => compl (part.rename f)
  | someOf p filler => someOf (p.rename f) (filler.rename f)
  | onlyOf p filler => onlyOf (p.rename f) (filler.rename f)
  | atLeast p n => atLeast (p.rename f) n
  | atMost p n => atMost (p.rename f) n
  | exactly p n => exactly (p.rename f) n
  | selfOf p => selfOf (p.rename f)
  | valueOf p v => valueOf (p.rename f) (v.rename f)
  | nominal a => nominal (a.rename f)

/-- The expressions with other nodes in place of their blank nodes. -/
def renameParts (f : BlankNode → BlankNode) : List Expression → List Expression
  | [] => []
  | part :: rest => part.rename f :: renameParts f rest

end

theorem renameParts_eq_map (f : BlankNode → BlankNode) (parts : List Expression) :
    renameParts f parts = parts.map (rename f) := by
  induction parts with
  | nil => rfl
  | cons part rest ih => rw [renameParts, ih, List.map_cons]

section Injective

variable {ρ : BlankNode ↪ BlankNode}

mutual

@[simp]
theorem rename_inj {c d : Expression} : c.rename ρ = d.rename ρ ↔ c = d := by
  cases c <;> cases d <;> simp [rename, rename_inj, renameParts_inj]

theorem renameParts_inj {cs ds : List Expression} :
    renameParts ρ cs = renameParts ρ ds ↔ cs = ds := by
  cases cs <;> cases ds <;> simp [renameParts, rename_inj, renameParts_inj]

end

theorem rename_injective (ρ : BlankNode ↪ BlankNode) : Function.Injective (rename ρ) :=
  fun _ _ => rename_inj.mp

end Injective

variable (f : BlankNode → BlankNode)

@[simp]
theorem rename_conj (parts : List Expression) :
    (conj parts).rename f = conj (parts.map (rename f)) := by
  rw [rename, renameParts_eq_map]

@[simp]
theorem rename_disj (parts : List Expression) :
    (disj parts).rename f = disj (parts.map (rename f)) := by
  rw [rename, renameParts_eq_map]

@[simp]
theorem rename_named (i : Iri) : (named i).rename f = named i := by
  unfold named
  split
  · rfl
  · split <;> rfl

@[simp]
theorem isTop_rename (e : Expression) : (e.rename f).isTop = e.isTop := by
  cases e <;> rfl

@[simp]
theorem concept?_rename (e : Expression) :
    (e.rename f).concept? = e.concept?.map (Term.rename f) := by
  cases e <;> rfl

@[simp]
theorem rename_eq_top {e : Expression} : e.rename f = top ↔ e = top := by
  cases e <;> simp [rename]

@[simp]
theorem rename_eq_bottom {e : Expression} : e.rename f = bottom ↔ e = bottom := by
  cases e <;> simp [rename]

end Expression

/-! ## Lists without repetition and tables -/

section Distinct

variable {α β : Type} [DecidableEq α] [DecidableEq β] {f : α → β} (hf : Function.Injective f)

include hf

theorem Distinct.insertLast_map (xs : List α) (a : α) :
    insertLast (xs.map f) (f a) = (insertLast xs a).map f := by
  by_cases ha : a ∈ xs
  · rw [insertLast, insertLast, if_pos ha, if_pos ((List.mem_map_of_injective hf).mpr ha)]
  · rw [insertLast, insertLast, if_neg ha, if_neg (mt (List.mem_map_of_injective hf).mp ha),
      List.map_append, List.map_singleton]

theorem Distinct.union_map (xs ys : List α) :
    union (xs.map f) (ys.map f) = (union xs ys).map f := by
  induction ys generalizing xs with
  | nil => rfl
  | cons a ys ih => rw [List.map_cons, union_cons, union_cons, insertLast_map hf, ih]

theorem Distinct.dedup_map (xs : List α) : dedup (xs.map f) = (dedup xs).map f :=
  union_map hf [] xs

end Distinct

namespace Table

variable {κ κ' β β' : Type} [DecidableEq κ] [DecidableEq κ'] {f : κ → κ'} {R : β → β' → Prop}
  {t : Table κ β} {t' : Table κ' β'}

/-- The second table has the renamed keys of the first in the same order, with values related to
those of the first. -/
def Renamed (f : κ → κ') (R : β → β' → Prop) (t : Table κ β) (t' : Table κ' β') : Prop :=
  List.Forall₂ (fun e e' => e'.1 = f e.1 ∧ R e.2 e'.2) t.entries t'.entries

omit [DecidableEq κ] [DecidableEq κ'] in
theorem renamed_empty : Renamed f R (∅ : Table κ β) (∅ : Table κ' β') := .nil

theorem Renamed.get? (hf : Function.Injective f) (h : Renamed f R t t') (k : κ) :
    Option.Rel R (t.get? k) (t'.get? (f k)) := by
  unfold Renamed at h
  unfold Table.get?
  generalize t.entries = es at h
  generalize t'.entries = es' at h
  induction h with
  | nil => exact .none
  | @cons e e' es es' he _ ih =>
    obtain ⟨x, v⟩ := e
    obtain ⟨x', v'⟩ := e'
    obtain ⟨rfl, hv⟩ := he
    by_cases hx : x = k
    · rw [lookupEntry, lookupEntry, if_pos hx, if_pos (congrArg f hx)]
      exact .some hv
    · rw [lookupEntry, lookupEntry, if_neg hx, if_neg (fun he => hx (hf he))]
      exact ih

theorem Renamed.insert (hf : Function.Injective f) (h : Renamed f R t t') (k : κ) {v : β} {v' : β'}
    (hv : R v v') : Renamed f R (t.insert k v) (t'.insert (f k) v') := by
  unfold Renamed at h
  -- a known key keeps its place, a new one comes last
  change List.Forall₂ _ (putEntry k v t.entries) (putEntry (f k) v' t'.entries)
  generalize t.entries = es at h
  generalize t'.entries = es' at h
  induction h with
  | nil => exact .cons ⟨rfl, hv⟩ .nil
  | @cons e e' es es' he hes ih =>
    obtain ⟨x, w⟩ := e
    obtain ⟨x', w'⟩ := e'
    obtain ⟨rfl, hw⟩ := he
    by_cases hx : x = k
    · rw [putEntry, putEntry, if_pos hx, if_pos (congrArg f hx)]
      exact .cons ⟨rfl, hv⟩ hes
    · rw [putEntry, putEntry, if_neg hx, if_neg (fun he => hx (hf he))]
      exact .cons ⟨rfl, hw⟩ ih

end Table

/-! ## Results -/

/-- Two results of one kind: related values, or related errors. -/
inductive EndAlike {ε ε' α α' : Type} (E : ε → ε' → Prop) (A : α → α' → Prop) :
    Except ε α → Except ε' α' → Prop
  | ok {a : α} {a' : α'} (h : A a a') : EndAlike E A (.ok a) (.ok a')
  | error {e : ε} {e' : ε'} (h : E e e') : EndAlike E A (.error e) (.error e')

/-- Work that goes on alike after results alike ends alike. -/
theorem EndAlike.bind {ε ε' α α' β β' : Type} {E : ε → ε' → Prop} {A : α → α' → Prop}
    {B : β → β' → Prop} {x : Except ε α} {x' : Except ε' α'} {next : α → Except ε β}
    {next' : α' → Except ε' β'} (h : EndAlike E A x x')
    (hnext : ∀ a a', A a a' → EndAlike E B (next a) (next' a')) :
    EndAlike E B (x >>= next) (x' >>= next') := by
  cases h with
  | ok ha => exact hnext _ _ ha
  | error he => exact .error he

/-! ## Texts that show terms -/

/-- Two texts that are the same apart from the terms that they show, which are renamed. -/
inductive Reworded (f : BlankNode → BlankNode) : String → String → Prop
  | same (s : String) : Reworded f s s
  | term (t : Term) : Reworded f t.display (t.rename f).display
  | append {s s' u u' : String} (hs : Reworded f s s') (hu : Reworded f u u') :
      Reworded f (s ++ u) (s' ++ u')

namespace Reworded

variable {f : BlankNode → BlankNode}

theorem shortName (t : Term) : Reworded f t.shortName (t.rename f).shortName := by
  cases t with
  | iri i => exact .same _
  | literal l => exact .same _
  | blank b =>
    -- the only name that changes
    exact .term (.blank b)

theorem text {s s' : String} (h : Reworded f s s') (u : String) : Reworded f (s ++ u) (s' ++ u) :=
  h.append (.same u)

theorem name {s s' : String} (h : Reworded f s s') (t : Term) :
    Reworded f (s ++ t.shortName) (s' ++ (t.rename f).shortName) :=
  h.append (.shortName t)

theorem intercalate (separator : String) {xs ys : List String}
    (h : List.Forall₂ (Reworded f) xs ys) :
    Reworded f (separator.intercalate xs) (separator.intercalate ys) := by
  induction h with
  | nil => exact .same _
  | cons hx hrest ih =>
    cases hrest with
    | nil => simpa only [String.intercalate_singleton] using hx
    | cons hy hrest =>
      rw [String.intercalate_cons_cons, String.intercalate_cons_cons]
      exact (hx.text _).append ih

theorem displayRestriction (property : Term) {s s' : String} (h : Reworded f s s') :
    Reworded f (Expression.displayRestriction property s)
      (Expression.displayRestriction (property.rename f) s') :=
  ((((Reworded.same _).name property).text _).append h).text _

end Reworded

mutual

theorem Expression.reworded_display (f : BlankNode → BlankNode) (e : Expression) :
    Reworded f e.display (e.rename f).display := by
  cases e with
  | top => exact .same _
  | bottom => exact .same _
  | concept c => exact .shortName c
  | conj parts => exact ((Reworded.same _).append (reworded_displayParts f _ parts)).text _
  | disj parts => exact ((Reworded.same _).append (reworded_displayParts f _ parts)).text _
  | compl part => exact (Reworded.same _).append (reworded_display f part)
  | someOf p filler =>
    exact .displayRestriction p ((Reworded.same _).append (reworded_display f filler))
  | onlyOf p filler =>
    exact .displayRestriction p ((Reworded.same _).append (reworded_display f filler))
  | atLeast p n => exact .displayRestriction p (.same _)
  | atMost p n => exact .displayRestriction p (.same _)
  | exactly p n => exact .displayRestriction p (.same _)
  | selfOf p => exact .displayRestriction p (.same _)
  | valueOf p v => exact .displayRestriction p ((Reworded.same _).name v)
  | nominal a => exact ((Reworded.same _).name a).text _

theorem Expression.reworded_displayParts (f : BlankNode → BlankNode) (word : String)
    (parts : List Expression) :
    Reworded f (displayParts word parts) (displayParts word (renameParts f parts)) := by
  cases parts with
  | nil => exact .same _
  | cons part rest =>
    cases rest with
    | nil => exact reworded_display f part
    | cons next rest =>
      exact ((reworded_display f part).text _).append
        (reworded_displayParts f word (next :: rest))

end

end GraphConformance
