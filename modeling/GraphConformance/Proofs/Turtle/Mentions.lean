import GraphConformance.Proofs.Turtle.Rests
import Mathlib.Logic.Relation

/-!
# What a document mentions

Reading a document meets references between angle brackets, labels of blank nodes, property lists
and collections. `State.mentions` lists them in the order in which they are met, each with the blank
nodes that it stands for, up to the end of the text or the place where reading halts.

A reader changes its state in few ways, and each of them is a step that says what is mentioned
(`Course.Step`). Whatever a production of the grammar reads, it gets from the state at its start to
the one that it leaves by such steps, with the mentions that are listed for it
(`reaches_readTerm` to `leads_readDocument`). What every step keeps is therefore kept by the reading
of every document, and needs no second walk through the grammar.
-/

set_option autoImplicit false

namespace GraphConformance.Turtle

open Text Vocabulary

/-! ## Mentions -/

/-- What a text mentions: a reference between angle brackets, the label of a blank node, a property
list with its own node, or a collection with its items and with the cells that hold them. -/
inductive Mention where
  | reference (text : List Char)
  | label (name : String) (node : BlankNode)
  | bracket (node : BlankNode)
  | collection (items : List Term) (cells : List BlankNode)
deriving DecidableEq

/-- The head of a list with these cells. -/
def listHead : List BlankNode → Term
  | [] => .iri Rdf.nil
  | cell :: _ => .blank cell

namespace State

/-- The node that a label stands for, be it known or made. -/
def labelNode (st : State) (name : String) : BlankNode :=
  (st.labels.get? name).getD ⟨st.nextBlank, some name⟩

/-- The node of the next property list. -/
def bracketNode (st : State) : BlankNode := ⟨st.nextBlank, none⟩

/-- The cells that a list of these items gets; the last one is made first. -/
def cells (st : State) : List Term → List BlankNode
  | [] => []
  | _ :: items => ⟨st.nextBlank + items.length, none⟩ :: st.cells items

end State

/-- What a reference mentions; a prefixed name mentions nothing. -/
def Reference.mentions : Reference → List Mention
  | .bracketed text => [.reference text]
  | .named .. => []

/-- What an atom mentions. -/
def Atom.mentions (st : State) : Atom → List Mention
  | .reference r => r.mentions
  | .label name => [.label (String.ofList name) (st.labelNode (String.ofList name))]
  | .literal _ => []
  | .typed _ datatype => datatype.mentions

/-- What is mentioned behind a reading, if reading goes on. -/
def Reading.andThen {s : List Char} {α : Type} (reading : Reading s α)
    (more : State → α → Shorter s → List Mention) : List Mention :=
  match reading with
  | ⟨st, .ok (v, r)⟩ => more st v r
  | ⟨_, .error _⟩ => []

mutual

/-- What a term mentions. -/
def mentionsTerm (st : State) (s : List Char) : List Mention :=
  match mark? '[' s with
  | some r =>
    .bracket st.bracketNode ::
      match mark? ']' (skip r.1) with
      | some _ => []
      | none =>
        have := r.skip.2
        mentionsPredicates st.freshBlank.1 st.freshBlank.2 (skip r.1)
  | none =>
    match mark? '(' s with
    | some r =>
      have := r.skip.2
      -- the cells are made behind all items, so the collection is mentioned last
      mentionsItems st (skip r.1) ++ (readItems st (skip r.1)).andThen fun st items _ =>
        [.collection items (st.cells items)]
    | none =>
      match readAtom s with
      | .error _ => []
      | .ok (atom, _) => atom.mentions st
termination_by (s.length, 0)

/-- What the items of a collection mention. -/
def mentionsItems (st : State) (s : List Char) : List Mention :=
  match mark? ')' s with
  | some _ => []
  | none =>
    mentionsTerm st s ++ (readTerm st s).andThen fun st _ r =>
      have := r.skip.2
      mentionsItems st (skip r.1)
termination_by (s.length, 1)

/-- What a predicate mentions. -/
def mentionsPredicate (st : State) (s : List Char) : List Mention :=
  match typeShorthand? s with
  | some _ => []
  | none => mentionsTerm st s
termination_by (s.length, 1)

/-- What the objects under a predicate mention. -/
def mentionsObjects (st : State) (subject predicate : Term) (s : List Char) : List Mention :=
  mentionsTerm st s ++ (readTerm st s).andThen fun st object r =>
    match mark? ',' (skip r.1) with
    | none => []
    | some q =>
      have := (r.skip.trans q).skip.2
      mentionsObjects (st.addTriple subject predicate object) subject predicate
        (r.skip.trans q).skip.1
termination_by (s.length, 1)

/-- What the predicates of a subject and their objects mention. -/
def mentionsPredicates (st : State) (subject : Term) (s : List Char) : List Mention :=
  mentionsPredicate st s ++ (readPredicate st s).andThen fun st predicate r =>
    have := r.skip.2
    mentionsObjects st subject predicate (skip r.1) ++
      (readObjects st subject predicate (skip r.1)).andThen fun st _ q =>
        match mark? ';' (r.skip.trans q).skip.1 with
        | none => []
        | some p =>
          let p := ((r.skip.trans q).skip.trans p).skipSemicolons
          have := p.2
          if endsPredicates p.1 then [] else mentionsPredicates st subject p.1
termination_by (s.length, 2)

end

/-! ### Directives

Both kinds of directives are a declaration behind one of two keywords. -/

/-- The declaration of a prefix or of a base, behind its keyword. -/
def readDeclaration (st : State) (prefixKeyword baseKeyword s : List Char) : Reading s Unit :=
  match word? prefixKeyword s with
  | some r => readPrefixDeclaration st r
  | none =>
    match word? baseKeyword s with
    | some r => readBaseDeclaration st r
    | none => ⟨st, .error (.before s .unknownDirective)⟩

/-- The declaration with a dot behind it. -/
def Reading.dotted {s : List Char} (declaration : Reading s Unit) : Reading s Unit :=
  match declaration with
  | ⟨st, .error halt⟩ => ⟨st, .error halt⟩
  | ⟨st, .ok (_, r)⟩ => ⟨st, expect '.' .dotAfterDirective r.skip⟩

theorem readDirective_eq (st : State) (s : List Char) : readDirective st s =
    (readDeclaration st "@prefix".toList "@base".toList s).dotted := rfl

theorem readBareDirective_eq (st : State) (s : List Char) : readBareDirective st s =
    readDeclaration st "PREFIX".toList "BASE".toList s := rfl

/-- What the text at its start mentions, read as a reference. -/
def mentionsReference (s : List Char) : List Mention :=
  match reference? s with
  | none => []
  | some (text, _) => [.reference text]

theorem length_dropLabel_lt {s : List Char} (r : Shorter s) :
    (r.skip.1.dropWhile isNameChar).length < s.length :=
  Nat.lt_of_le_of_lt (length_dropWhile_le _ r.skip.1) r.skip.2

/-- What the declaration of a prefix mentions. -/
def mentionsPrefixDeclaration {s : List Char} (r : Shorter s) : List Mention :=
  match expect ':' .colonAfterName ⟨r.skip.1.dropWhile isNameChar, length_dropLabel_lt r⟩ with
  | .error _ => []
  | .ok (_, q) => mentionsReference q.skip.1

/-- What a directive mentions that starts with one of two keywords. -/
def mentionsDirective (prefixKeyword baseKeyword s : List Char) : List Mention :=
  match word? prefixKeyword s with
  | some r => mentionsPrefixDeclaration r
  | none =>
    match word? baseKeyword s with
    | some r => mentionsReference r.skip.1
    | none => []

/-! ### Statements and documents -/

/-- What a statement mentions. -/
def mentionsStatement (st : State) (s : List Char) : List Mention :=
  mentionsTerm st s ++ (readTerm st s).andThen fun st subject r =>
    if subject.isIndividual then
      if s.head? = some '[' ∧ (skip r.1).head? = some '.' then []
      else mentionsPredicates st subject (skip r.1)
    else []

/-- What a directive or a statement mentions. -/
def mentionsEntry (st : State) (s : List Char) : List Mention :=
  if s.head? = some '@' then mentionsDirective "@prefix".toList "@base".toList s
  else if startsWithKeyword "PREFIX".toList s || startsWithKeyword "BASE".toList s then
    mentionsDirective "PREFIX".toList "BASE".toList s
  else mentionsStatement st s

/-- What a text mentions, up to its end or the place where reading halts. -/
def mentionsEntries (st : State) (s : List Char) : List Mention :=
  match skip s, length_skip_le s with
  | [], _ => []
  | c :: text, h =>
    mentionsEntry st (c :: text) ++ (readEntry st (c :: text)).andThen fun st _ r =>
      have := Nat.lt_of_lt_of_le r.2 h
      mentionsEntries st r.1
termination_by s.length

theorem mentionsEntries_of_skip_eq_nil {s : List Char} (h : skip s = []) (st : State) :
    mentionsEntries st s = [] := by
  rw [mentionsEntries]
  split
  · rfl
  · rename_i hc _
    cases h.symm.trans hc

theorem mentionsEntries_of_skip {s text : List Char} (h : skip s = text) (hne : text ≠ [])
    (st : State) :
    mentionsEntries st s = mentionsEntry st text ++
      (readEntry st text).andThen fun st _ r => mentionsEntries st r.1 := by
  rw [mentionsEntries]
  split
  · rename_i hc _
    exact absurd (h.symm.trans hc) hne
  · rename_i hc _
    obtain rfl := h.symm.trans hc
    rfl

/-- What a document mentions. -/
def State.mentions (st : State) (text : String) : List Mention := mentionsEntries st text.toList

/-! ## Courses -/

/-- An occurrence of a blank node: its label, if it is mentioned by one, and the node. -/
structure Occurrence where
  label : Option String
  node : BlankNode
deriving DecidableEq

/-- The blank nodes that a mention stands for. The nodes among the items of a collection are
mentioned before it. -/
def Mention.occurrences : Mention → List Occurrence
  | .reference _ => []
  | .label name node => [⟨some name, node⟩]
  | .bracket node => [⟨none, node⟩]
  | .collection _ cells => cells.map (⟨none, ·⟩)

/-- How far a reading has come: the state that it has reached and what was mentioned on the way. -/
structure Course where
  state : State
  mentions : List Mention

namespace Course

variable {c c' : Course} {x : Term}

/-- The occurrences of blank nodes on the way. -/
def occurrences (c : Course) : List Occurrence := c.mentions.flatMap Mention.occurrences

/-- The term is no blank node, or one that occurred on the way. -/
def Knows (c : Course) (x : Term) : Prop := ∀ b, x = .blank b → ∃ o ∈ c.occurrences, o.node = b

/-- The course with another state and more mentions. -/
def on (c : Course) (st : State) (mentions : List Mention) : Course := ⟨st, c.mentions ++ mentions⟩

/-- One step of a reading. Triples are made of terms that have occurred, with their parts in their
places. -/
inductive Step (c : Course) : Course → Prop where
  | reference (text : List Char) : Step c (c.on c.state [.reference text])
  | label (name : String) :
      Step c (c.on (c.state.labelledBlank name).1 [.label name (c.state.labelNode name)])
  | bracket : Step c (c.on c.state.freshBlank.1 [.bracket c.state.bracketNode])
  | collection {items : List Term} (hitems : ∀ x ∈ items, c.Knows x) :
      Step c (c.on (c.state.addList items).1 [.collection items (c.state.cells items)])
  | triple {subject predicate object : Term} (hsubject : c.Knows subject)
      (hindividual : subject.isIndividual = true) (hpredicate : predicate.isIri = true)
      (hobject : c.Knows object) : Step c (c.on (c.state.addTriple subject predicate object) [])
  | declare (label space : String) : Step c (c.on (c.state.declare label space) [])
  | rebase (base : Iri) : Step c (c.on { c.state with base := some base } [])

/-- Several steps of a reading. -/
abbrev Leads : Course → Course → Prop := Relation.ReflTransGen Step

theorem on_nil (c : Course) : c.on c.state [] = c := by
  rw [on, List.append_nil]

/-- Nothing mentioned and nothing changed is no step. -/
theorem leads_on_nil {st : State} (h : c.state = st) : c.Leads (c.on st []) := by
  subst h
  rw [on_nil]

theorem on_on (c : Course) (st st' : State) (ms ms' : List Mention) :
    (c.on st ms).on st' ms' = c.on st' (ms ++ ms') := by
  rw [on, on, on, List.append_assoc]

theorem Step.prefix_mentions (h : c.Step c') : c.mentions <+: c'.mentions := by
  cases h <;> exact List.prefix_append _ _

theorem Leads.prefix_mentions (h : c.Leads c') : c.mentions <+: c'.mentions := by
  induction h with
  | refl => exact List.prefix_refl _
  | tail _ hstep ih => exact ih.trans hstep.prefix_mentions

theorem Knows.mono (hx : c.Knows x) (h : c.mentions <+: c'.mentions) : c'.Knows x := by
  intro b hb
  obtain ⟨o, ho, rfl⟩ := hx b hb
  obtain ⟨more, hmore⟩ := h
  refine ⟨o, ?_, rfl⟩
  rw [occurrences, ← hmore, List.flatMap_append]
  exact List.mem_append_left _ ho

theorem Knows.of_leads (hx : c.Knows x) (h : c.Leads c') : c'.Knows x :=
  hx.mono h.prefix_mentions

theorem knows_iri (c : Course) (i : Iri) : c.Knows (.iri i) := fun _ h => nomatch h

theorem knows_literal (c : Course) (l : Literal) : c.Knows (.literal l) := fun _ h => nomatch h

theorem knows_of_isIri {p : Term} (h : p.isIri = true) : c.Knows p := by
  cases p with
  | iri i => exact c.knows_iri i
  | literal l => cases h
  | blank b => cases h

/-- What has just been mentioned is known. -/
theorem knows_on {st : State} {m : Mention} {o : Occurrence} (h : o ∈ m.occurrences) :
    (c.on st [m]).Knows (.blank o.node) := by
  intro b hb
  refine ⟨o, ?_, Term.blank.inj hb⟩
  simp [occurrences, on, h]

end Course

/-! ## Making nodes -/

namespace State

variable (st : State)

theorem labelledBlank_snd (name : String) :
    (st.labelledBlank name).2 = .blank (st.labelNode name) := by
  rw [labelledBlank, labelNode]
  cases st.labels.get? name <;> rfl

theorem nextBlank_addList (items : List Term) :
    (st.addList items).1.nextBlank = st.nextBlank + items.length := by
  induction items with
  | nil => rfl
  | cons item items ih =>
    rw [addList]
    exact congrArg (· + 1) ih

theorem addList_snd (items : List Term) : (st.addList items).2 = listHead (st.cells items) := by
  cases items with
  | nil => rfl
  | cons item items =>
    rw [addList, cells, listHead, ← nextBlank_addList]
    rfl

end State

/-! ## Readings -/

/-- From the course a reading gets by steps to the state that it leaves, with these mentions on the
way, and what holds of its value. -/
structure Reaches {s : List Char} {α : Type} (c : Course) (ms : List Mention)
    (P : Course → α → Prop) (reading : Reading s α) : Prop where
  leads : c.Leads (c.on reading.state ms)
  value : ∀ v r, reading.result = .ok (v, r) → P (c.on reading.state ms) v

namespace Reaches

variable {s t : List Char} {α β : Type} {c : Course} {ms ms' : List Mention}
  {P : Course → α → Prop} {Q : Course → β → Prop} {st st' : State}

theorem ok {v : α} {r : Shorter s} (h : c.Leads (c.on st ms)) (hv : P (c.on st ms) v) :
    Reaches c ms P ⟨st, .ok (v, r)⟩ where
  leads := h
  value := by
    intro v' r' hresult
    obtain ⟨rfl, -⟩ := Prod.mk.inj (Except.ok.inj hresult)
    exact hv

theorem error {halt : Halt} (h : c.Leads (c.on st ms)) :
    Reaches c ms P (⟨st, .error halt⟩ : Reading s α) where
  leads := h
  value := by
    intro v r hresult
    cases hresult

/-- Readings without a value. -/
theorem silent {result : Except Halt (Unit × Shorter s)} (h : c.Leads (c.on st ms)) :
    Reaches c ms (fun _ _ => True) ⟨st, result⟩ where
  leads := h
  value := fun _ _ _ => trivial

/-- The steps to the state that is left, once the reading is known. -/
theorem leads_of {part : Reading t β} (h : Reaches c ms Q part)
    {result : Except Halt (β × Shorter t)} (hread : part = ⟨st, result⟩) :
    c.Leads (c.on st ms) := by
  subst hread
  exact h.leads

theorem value_of {part : Reading t β} (h : Reaches c ms Q part) {v : β} {r : Shorter t}
    (hread : part = ⟨st, .ok (v, r)⟩) : Q (c.on st ms) v := by
  subst hread
  exact h.value v r rfl

/-- A part that halts halts the whole. -/
theorem halt {reading : Reading t β} (h : Reaches c ms Q reading) {halt : Halt}
    (hread : reading = ⟨st, .error halt⟩) (more : State → β → Shorter t → List Mention) :
    Reaches c (ms ++ reading.andThen more) P (⟨st, .error halt⟩ : Reading s α) := by
  subst hread
  rw [Reading.andThen, List.append_nil]
  exact .error h.leads

/-- Behind a part the reading goes on. -/
theorem next {part : Reading t β} (h : Reaches c ms Q part) {v : β} {r : Shorter t}
    (hread : part = ⟨st, .ok (v, r)⟩) {more : State → β → Shorter t → List Mention}
    {reading : Reading s α} (hnext : Q (c.on st ms) v →
      Reaches (c.on st ms) (more st v r) P reading) :
    Reaches c (ms ++ part.andThen more) P reading := by
  obtain ⟨hleads, hvalue⟩ := hnext (h.value_of hread)
  have hpart := h.leads_of hread
  subst hread
  rw [Course.on_on] at hleads hvalue
  exact ⟨hpart.trans hleads, hvalue⟩

end Reaches

section Grammar

variable {c : Course}

theorem leads_reference (r : Reference) : c.Leads (c.on c.state r.mentions) := by
  cases r with
  | bracketed text => exact .single (.reference text)
  | named label suffix => exact Course.leads_on_nil rfl

/-- An atom is one step at most. -/
theorem leads_place (atom : Atom) : c.Leads (c.on (c.state.place atom).1 (atom.mentions c.state)) ∧
    ∀ x, (c.state.place atom).2 = .ok x →
      (c.on (c.state.place atom).1 (atom.mentions c.state)).Knows x := by
  cases atom with
  | reference r =>
    refine ⟨leads_reference r, ?_⟩
    intro x hx
    change (c.state.resolve r).map Term.iri = .ok x at hx
    cases hresolve : c.state.resolve r with
    | error halt => rw [hresolve] at hx; cases hx
    | ok i =>
      rw [hresolve] at hx
      obtain rfl := Except.ok.inj hx
      exact Course.knows_iri _ i
  | label name =>
    refine ⟨.single (.label _), ?_⟩
    intro x hx
    change .ok (c.state.labelledBlank (String.ofList name)).2 = (.ok x : Except Halt Term) at hx
    rw [State.labelledBlank_snd] at hx
    obtain rfl := Except.ok.inj hx
    exact Course.knows_on (m := .label _ _) (List.mem_singleton_self _)
  | literal l =>
    refine ⟨Course.leads_on_nil rfl, ?_⟩
    intro x hx
    obtain rfl := Except.ok.inj hx
    exact Course.knows_literal _ l
  | typed value datatype =>
    refine ⟨leads_reference datatype, ?_⟩
    intro x hx
    change (c.state.resolve datatype).map _ = .ok x at hx
    cases hresolve : c.state.resolve datatype with
    | error halt => rw [hresolve] at hx; cases hx
    | ok i =>
      rw [hresolve] at hx
      obtain rfl := Except.ok.inj hx
      exact Course.knows_literal _ _

theorem knows_listHead {st : State} {items : List Term} {cells : List BlankNode} :
    (c.on st [.collection items cells]).Knows (listHead cells) := by
  cases cells with
  | nil => exact Course.knows_iri _ Rdf.nil
  | cons cell cells => exact Course.knows_on (o := ⟨none, cell⟩) List.mem_cons_self

mutual

theorem reaches_readTerm (c : Course) (s : List Char) :
    Reaches c (mentionsTerm c.state s) Course.Knows (readTerm c.state s) := by
  rw [readTerm, mentionsTerm]
  cases mark? '[' s with
  | some r =>
    -- the node of a property list is mentioned before what is inside
    have hopen : c.Leads (c.on c.state.freshBlank.1 [.bracket c.state.bracketNode]) :=
      .single .bracket
    have hnode : (c.on c.state.freshBlank.1 [.bracket c.state.bracketNode]).Knows
        c.state.freshBlank.2 :=
      Course.knows_on (o := ⟨none, c.state.bracketNode⟩) List.mem_cons_self
    dsimp only
    cases mark? ']' (skip r.1) with
    | some q => exact .ok hopen hnode
    | none =>
      have hlt : (skip r.1).length < s.length := r.skip.2
      have hinside : Reaches _ (mentionsPredicates c.state.freshBlank.1 c.state.freshBlank.2
            (skip r.1)) _ (readPredicates c.state.freshBlank.1 c.state.freshBlank.2 (skip r.1)) :=
        reaches_readPredicates (c.on c.state.freshBlank.1 [.bracket c.state.bracketNode]) hnode rfl
          (skip r.1)
      have hleads := hopen.trans hinside.leads
      have hknown := hnode.of_leads hinside.leads
      rw [Course.on_on] at hleads hknown
      dsimp only
      split
      · rename_i st' halt heq
        rw [heq] at hleads
        exact .error hleads
      · rename_i st' v q heq
        rw [heq] at hleads hknown
        cases expect ']' .closingBracket (r.skip.trans q).skip with
        | error halt => exact .error hleads
        | ok answer => exact .ok hleads hknown
  | none =>
    dsimp only
    cases mark? '(' s with
    | some r =>
      have hlt : (skip r.1).length < s.length := r.skip.2
      have hitems := reaches_readItems c (skip r.1)
      dsimp only
      split
      · rename_i st' halt heq
        exact hitems.halt heq _
      · rename_i st' items q heq
        refine hitems.next heq fun hknown => ?_
        rw [State.addList_snd]
        exact .ok (.single (.collection hknown)) knows_listHead
    | none =>
      -- an atom: whatever follows from it is in `leads_place`
      dsimp only
      cases readAtom s with
      | error halt => exact .error (Course.leads_on_nil rfl)
      | ok answer =>
        obtain ⟨hleads, hvalue⟩ := leads_place (c := c) answer.1
        dsimp only
        split
        · rename_i st' halt hplace
          rw [hplace] at hleads
          exact .error hleads
        · rename_i st' x hplace
          rw [hplace] at hleads hvalue
          exact .ok hleads (hvalue x rfl)
termination_by (s.length, 0)

theorem reaches_readItems (c : Course) (s : List Char) :
    Reaches c (mentionsItems c.state s) (fun c items => ∀ x ∈ items, c.Knows x)
      (readItems c.state s) := by
  rw [readItems, mentionsItems]
  cases mark? ')' s with
  | some r => exact .ok (Course.leads_on_nil rfl) (by simp)
  | none =>
    have hterm := reaches_readTerm c s
    dsimp only
    split
    · rename_i st' halt heq
      exact hterm.halt heq _
    · rename_i st' item r heq
      refine hterm.next heq fun hitem => ?_
      have hlt : (skip r.1).length < s.length := r.skip.2
      have hitems : Reaches _ (mentionsItems st' (skip r.1)) _ (readItems st' (skip r.1)) :=
        reaches_readItems (c.on st' (mentionsTerm c.state s)) (skip r.1)
      split
      · rename_i st'' halt heq'
        exact .error (hitems.leads_of heq')
      · rename_i st'' items q heq'
        have hleads := hitems.leads_of heq'
        have hmore := hitems.value_of heq'
        exact .ok hleads (List.forall_mem_cons.mpr ⟨hitem.of_leads hleads, hmore⟩)
termination_by (s.length, 1)

theorem reaches_readPredicate (c : Course) (s : List Char) :
    Reaches c (mentionsPredicate c.state s) (fun _ p => p.isIri = true)
      (readPredicate c.state s) := by
  rw [readPredicate, mentionsPredicate]
  cases typeShorthand? s with
  | some r => exact .ok (Course.leads_on_nil rfl) rfl
  | none =>
    have hterm := reaches_readTerm c s
    dsimp only
    split
    · rename_i st' halt heq
      exact .error (hterm.leads_of heq)
    · rename_i st' x r heq
      have hleads := hterm.leads_of heq
      split
      · rename_i hiri
        exact .ok hleads hiri
      · exact .error hleads
termination_by (s.length, 1)

theorem reaches_readObjects (c : Course) {x p : Term} (hx : c.Knows x)
    (hindividual : x.isIndividual = true) (hp : p.isIri = true) (s : List Char) :
    Reaches c (mentionsObjects c.state x p s) (fun _ _ => True) (readObjects c.state x p s) := by
  rw [readObjects, mentionsObjects]
  have hterm := reaches_readTerm c s
  split
  · rename_i st' halt heq
    exact hterm.halt heq _
  · rename_i st' object r heq
    have hleads := hterm.leads_of heq
    refine hterm.next heq fun hobject => ?_
    -- the triple is recorded before further objects are read
    have hadded := Relation.ReflTransGen.single
      (Course.Step.triple (hx.of_leads hleads) hindividual hp hobject)
    dsimp only
    cases mark? ',' (skip r.1) with
    | none => exact .silent hadded
    | some q =>
      have hlt : (r.skip.trans q).skip.1.length < s.length := (r.skip.trans q).skip.2
      have hrest : Reaches _ (mentionsObjects (st'.addTriple x p object) x p
            (r.skip.trans q).skip.1) _
          (readObjects (st'.addTriple x p object) x p (r.skip.trans q).skip.1) :=
        reaches_readObjects _ ((hx.of_leads hleads).of_leads hadded) hindividual hp
          (r.skip.trans q).skip.1
      have hall := hadded.trans hrest.leads
      rw [Course.on_on, List.nil_append] at hall
      dsimp only
      split
      · rename_i st'' halt heq'
        rw [heq'] at hall
        exact .silent hall
      · rename_i st'' v z heq'
        rw [heq'] at hall
        exact .silent hall
termination_by (s.length, 1)

theorem reaches_readPredicates (c : Course) {x : Term} (hx : c.Knows x)
    (hindividual : x.isIndividual = true) (s : List Char) :
    Reaches c (mentionsPredicates c.state x s) (fun _ _ => True) (readPredicates c.state x s) := by
  rw [readPredicates, mentionsPredicates]
  have hpredicate := reaches_readPredicate c s
  split
  · rename_i st' halt heq
    exact hpredicate.halt heq _
  · rename_i st' p r heq
    have hknown := hx.of_leads (hpredicate.leads_of heq)
    refine hpredicate.next heq fun hp => ?_
    have hlt : (skip r.1).length < s.length := r.skip.2
    have hobjects : Reaches _ (mentionsObjects st' x p (skip r.1)) _
        (readObjects st' x p (skip r.1)) := reaches_readObjects _ hknown hindividual hp (skip r.1)
    dsimp only
    split
    · rename_i st'' halt heq'
      exact hobjects.halt heq' _
    · rename_i st'' v q heq'
      have hknown' := hknown.of_leads (hobjects.leads_of heq')
      refine hobjects.next heq' fun _ => ?_
      cases mark? ';' (r.skip.trans q).skip.1 with
      | none => exact .silent (Course.leads_on_nil rfl)
      | some z =>
        have hlt : ((r.skip.trans q).skip.trans z).skipSemicolons.1.length < s.length :=
          ((r.skip.trans q).skip.trans z).skipSemicolons.2
        dsimp only
        by_cases hend : endsPredicates ((r.skip.trans q).skip.trans z).skipSemicolons.1 = true
        · rw [if_pos hend, if_pos hend]
          exact .silent (Course.leads_on_nil rfl)
        · rw [if_neg hend, if_neg hend]
          have hmore : Reaches _ (mentionsPredicates st'' x
                ((r.skip.trans q).skip.trans z).skipSemicolons.1) _
              (readPredicates st'' x ((r.skip.trans q).skip.trans z).skipSemicolons.1) :=
            reaches_readPredicates _ hknown' hindividual
              ((r.skip.trans q).skip.trans z).skipSemicolons.1
          split
          · rename_i last halt heq''
            exact .silent (hmore.leads_of heq'')
          · rename_i last w y heq''
            exact .silent (hmore.leads_of heq'')
termination_by (s.length, 2)

end

/-! ### Directives, statements and documents -/

theorem reaches_readPrefixDeclaration (c : Course) {s : List Char} (r : Shorter s) :
    Reaches c (mentionsPrefixDeclaration r) (fun _ _ => True)
      (readPrefixDeclaration c.state r) := by
  rw [readPrefixDeclaration, mentionsPrefixDeclaration]
  dsimp only
  generalize expect ':' .colonAfterName _ = colon
  cases colon with
  | error halt => exact .silent (Course.leads_on_nil rfl)
  | ok q =>
    dsimp only [mentionsReference]
    cases reference? q.2.skip.1 with
    | none => exact .silent (Course.leads_on_nil rfl)
    | some answer =>
      have hsteps := (Relation.ReflTransGen.single (Course.Step.reference (c := c) answer.1)).tail
        (.declare (String.ofList (r.skip.1.takeWhile isNameChar))
          (c.state.resolveText (String.ofList answer.1)).text)
      rw [Course.on_on] at hsteps
      exact .silent hsteps

theorem reaches_readBaseDeclaration (c : Course) {s : List Char} (r : Shorter s) :
    Reaches c (mentionsReference r.skip.1) (fun _ _ => True) (readBaseDeclaration c.state r) := by
  rw [readBaseDeclaration, mentionsReference]
  cases reference? r.skip.1 with
  | none => exact .silent (Course.leads_on_nil rfl)
  | some answer =>
    have hsteps := (Relation.ReflTransGen.single (Course.Step.reference (c := c) answer.1)).tail
      (.rebase (c.state.resolveText (String.ofList answer.1)))
    rw [Course.on_on] at hsteps
    exact .silent hsteps

theorem reaches_readDeclaration (c : Course) (prefixKeyword baseKeyword s : List Char) :
    Reaches c (mentionsDirective prefixKeyword baseKeyword s) (fun _ _ => True)
      (readDeclaration c.state prefixKeyword baseKeyword s) := by
  rw [readDeclaration, mentionsDirective]
  cases word? prefixKeyword s with
  | some r => exact reaches_readPrefixDeclaration c r
  | none =>
    dsimp only
    cases word? baseKeyword s with
    | some r => exact reaches_readBaseDeclaration c r
    | none => exact .silent (Course.leads_on_nil rfl)

/-- The dot behind a directive changes nothing. -/
theorem Reaches.dotted {s : List Char} {ms : List Mention} {declaration : Reading s Unit}
    (h : Reaches c ms (fun _ _ => True) declaration) :
    Reaches c ms (fun _ _ => True) declaration.dotted := by
  cases declaration with
  | mk st result =>
    cases result with
    | error halt => exact .silent h.leads
    | ok answer => exact .silent h.leads

theorem reaches_readStatement (c : Course) (s : List Char) :
    Reaches c (mentionsStatement c.state s) (fun _ _ => True) (readStatement c.state s) := by
  rw [readStatement, mentionsStatement]
  have hterm := reaches_readTerm c s
  split
  · rename_i st' halt heq
    exact hterm.halt heq _
  · rename_i st' subject r heq
    refine hterm.next heq fun hsubject => ?_
    by_cases hindividual : subject.isIndividual = true
    · rw [if_pos hindividual, if_pos hindividual]
      by_cases halone : s.head? = some '[' ∧ (skip r.1).head? = some '.'
      · rw [if_pos halone, if_pos halone]
        exact .silent (Course.leads_on_nil rfl)
      · rw [if_neg halone, if_neg halone]
        have hpredicates : Reaches _ (mentionsPredicates st' subject (skip r.1)) _
            (readPredicates st' subject (skip r.1)) :=
          reaches_readPredicates _ hsubject hindividual (skip r.1)
        split
        · rename_i last halt heq'
          exact .silent (hpredicates.leads_of heq')
        · rename_i last v q heq'
          exact .silent (hpredicates.leads_of heq')
    · rw [if_neg hindividual, if_neg hindividual]
      exact .silent (Course.leads_on_nil rfl)

theorem reaches_readEntry (c : Course) (s : List Char) :
    Reaches c (mentionsEntry c.state s) (fun _ _ => True) (readEntry c.state s) := by
  rw [readEntry, mentionsEntry]
  split
  · rw [readDirective_eq]
    exact (reaches_readDeclaration c _ _ s).dotted
  · split
    · rw [readBareDirective_eq]
      exact reaches_readDeclaration c _ _ s
    · exact reaches_readStatement c s

/-- An entry starts where the one before it has stopped, so the course is an arbitrary one that has
got to the state. -/
theorem leads_readEntries (st : State) (s : List Char) :
    ∀ c : Course, c.state = st → c.Leads (c.on (readEntries st s).1 (mentionsEntries st s)) := by
  induction st, s using readEntries.induct with
  | case1 st s _ hskip =>
    intro c hc
    rw [readEntries_of_skip_eq_nil hskip, mentionsEntries_of_skip_eq_nil hskip]
    exact Course.leads_on_nil hc
  | case2 st s a text _ hskip st' halt hentry =>
    rintro c rfl
    have hne := List.cons_ne_nil a text
    rw [readEntries_of_halt hskip hne hentry, mentionsEntries_of_skip hskip hne]
    rw [hentry, Reading.andThen, List.append_nil]
    exact (reaches_readEntry c (a :: text)).leads_of hentry
  | case3 st s a text _ hskip st' v r hentry _ ih =>
    rintro c rfl
    have hne := List.cons_ne_nil a text
    rw [readEntries_of_readEntry hskip hne hentry, mentionsEntries_of_skip hskip hne]
    have hall := ((reaches_readEntry c (a :: text)).leads_of hentry).trans (ih (c.on st' _) rfl)
    rw [Course.on_on] at hall
    rwa [hentry]

/-- Whatever a document reads, it gets to the state that it leaves by steps that mention what the
document mentions. -/
theorem leads_readDocument (c : Course) (text : String) :
    c.Leads (c.on (c.state.readDocument text).1 (c.state.mentions text)) := by
  have h := leads_readEntries c.state text.toList c rfl
  rw [State.readDocument, State.mentions]
  split
  · rename_i st' v heq
    rwa [heq] at h
  · rename_i st' halt heq
    rwa [heq] at h

end Grammar

end GraphConformance.Turtle
