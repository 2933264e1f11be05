import GraphConformance.Settings.Overrides
import Mathlib.Tactic.Common

/-!
# What variables change in the settings

Nine variables have a say in the settings. For each of them it is said, apart from how values are
read, which texts name which values (`Variable.Means`), and what it is for a field to follow its
variable: it has the value that the text of the variable names, or, if the variable is absent or its
text names nothing, the value from before (`Variable.Follows`). The settings as variables override
them are the only ones that follow all nine and have the rest from before
(`overriddenBy_eq_iff`). So what a variable says is seen in its own field and in no other.

The flags are the exception to the rule that texts without a meaning are ignored. A flag has three
words for yes and three for no, but only those for yes are compared with: all other texts mean no.
For a flag that is set, a text that is none of the six words therefore counts as no, where the other
six variables keep the value from before.
-/

set_option autoImplicit false

namespace GraphConformance

/-! ## The texts of a count -/

namespace Text

/-- The texts of a count: an optional plus sign, any number of zeros, and the number. -/
def IsCount (text : List Char) (n : Nat) : Prop :=
  n < countLimit ∧ ∃ sign zeros, (sign = [] ∨ sign = ['+']) ∧
    text = sign ++ (List.replicate zeros '0' ++ decimal n)

theorem digitChar_of_digitValue? {c : Char} {d : Nat} (h : digitValue? c = some d) :
    d < 10 ∧ digitChar d = c := by
  rw [digitValue?] at h
  split at h
  · rename_i hdigit
    have hrange : 48 ≤ c.toNat ∧ c.toNat ≤ 57 := by
      simpa [Char.isDigit, UInt32.le_iff_toNat_le] using hdigit
    obtain rfl : c.toNat - 48 = d := Option.some.inj h
    refine ⟨by omega, ?_⟩
    rw [digitChar, Nat.add_sub_cancel' hrange.1, Char.ofNat_toNat]
  · cases h

/-- A digit behind a number makes a number, in front of which stands a zero if the first was
zero. -/
theorem exists_decimal_append (n : Nat) {d : Nat} (hd : d < 10) :
    ∃ zeros, decimal n ++ [digitChar d] = List.replicate zeros '0' ++ decimal (n * 10 + d) := by
  by_cases hn : n = 0
  · refine ⟨1, ?_⟩
    subst hn
    rw [Nat.zero_mul, Nat.zero_add, decimal.eq_def d, if_pos hd, decimal.eq_def 0]
    rfl
  · refine ⟨0, ?_⟩
    rw [decimal.eq_def (n * 10 + d), if_neg (by omega), show (n * 10 + d) / 10 = n by omega,
      show (n * 10 + d) % 10 = d by omega]
    rfl

/-- Digits behind a number are digits of a number, zeros in front aside. -/
theorem eq_decimal_of_extendValue? {digits : List Char} {value n : Nat}
    (h : extendValue? value digits = some n) :
    ∃ zeros, decimal value ++ digits = List.replicate zeros '0' ++ decimal n := by
  -- each digit joins the number in front of it, which may leave a zero behind
  induction digits generalizing value with
  | nil =>
    obtain rfl : value = n := Option.some.inj h
    exact ⟨0, List.append_nil _⟩
  | cons c digits ih =>
    rw [extendValue?] at h
    cases hc : digitValue? c with
    | none => rw [hc] at h; cases h
    | some d =>
      rw [hc] at h
      obtain ⟨hd, rfl⟩ := digitChar_of_digitValue? hc
      obtain ⟨zeros, hzeros⟩ := exists_decimal_append value hd
      obtain ⟨more, hmore⟩ := ih h
      refine ⟨zeros + more, ?_⟩
      calc decimal value ++ digitChar d :: digits
          = (decimal value ++ [digitChar d]) ++ digits := by simp
        _ = List.replicate zeros '0' ++ (decimal (value * 10 + d) ++ digits) := by
          rw [hzeros, List.append_assoc]
        _ = List.replicate (zeros + more) '0' ++ decimal n := by
          rw [hmore, ← List.append_assoc, List.replicate_append_replicate]

theorem eq_decimal_of_natural? {digits : List Char} {n : Nat} (h : natural? digits = some n) :
    ∃ zeros, digits = List.replicate zeros '0' ++ decimal n := by
  cases digits with
  | nil => cases h
  | cons c digits =>
    rw [natural?, extendValue?] at h
    · cases hc : digitValue? c with
      | none => rw [hc] at h; cases h
      | some d =>
        rw [hc] at h
        obtain ⟨hd, rfl⟩ := digitChar_of_digitValue? hc
        have hone : decimal d = [digitChar d] := by rw [decimal, if_pos hd]
        simpa [hone] using eq_decimal_of_extendValue? h
    · simp

/-- Exactly the texts of a count are read, as that count. -/
theorem count?_eq_some_iff {text : List Char} {n : Nat} :
    count? text = some n ↔ IsCount text n := by
  constructor
  · intro h
    have hlimit : ∀ m, (if m < countLimit then some m else none) = some n →
        m = n ∧ n < countLimit := by
      intro m hm
      obtain ⟨hlt, heq⟩ := Option.ite_none_right_eq_some.mp hm
      obtain rfl := Option.some.inj heq
      exact ⟨rfl, hlt⟩
    have hparts : ∃ sign digits, (sign = [] ∨ sign = ['+']) ∧ text = sign ++ digits ∧
        ∃ m, natural? digits = some m ∧ m = n ∧ n < countLimit := by
      unfold count? at h
      split at h <;> dsimp only at h <;> split at h
      · exact ⟨['+'], _, .inr rfl, rfl, _, ‹_›, hlimit _ h⟩
      · cases h
      · exact ⟨[], _, .inl rfl, rfl, _, ‹_›, hlimit _ h⟩
      · cases h
    obtain ⟨sign, digits, hsign, rfl, _, hvalue, rfl, hn⟩ := hparts
    obtain ⟨zeros, rfl⟩ := eq_decimal_of_natural? hvalue
    exact ⟨hn, sign, zeros, hsign, rfl⟩
  · rintro ⟨hn, sign, zeros, hsign, rfl⟩
    exact count?_decimal hsign zeros hn

end Text

/-! ## The names of formats, levels and kinds -/

/-- The names of a format. -/
def OutputFormat.names : OutputFormat → List String
  | .nTriples => ["nt", "ntriples", "n-triples"]
  | .json => ["json"]

theorem OutputFormat.ofName?_eq_some_iff {text : String} {format : OutputFormat} :
    ofName? text = some format ↔ Text.lowercase text ∈ format.names := by
  unfold ofName?
  generalize Text.lowercase text = word
  cases format <;> split <;> simp_all [names]

/-- The names of a level. -/
def LogLevel.names : LogLevel → List String
  | .quiet => ["quiet", "q", "0"]
  | .normal => ["normal", "n", "1"]
  | .verbose => ["verbose", "v", "2"]
  | .debug => ["debug", "d", "3"]

theorem LogLevel.ofName?_eq_some_iff {text : String} {level : LogLevel} :
    ofName? text = some level ↔ Text.lowercase text ∈ level.names := by
  unfold ofName?
  generalize Text.lowercase text = word
  cases level <;> split <;> simp_all [names]

/-- The names of a kind of acceptance. -/
def MappingKind.names : MappingKind → List String
  | .sub => ["sub", "subclass"]
  | .subIfNotTop => ["sub_if_not_top"]
  | .super => ["super", "superclass"]
  | .equivalent => ["equivalent", "equiv", "eq"]
  | .any => ["any"]

/-- A text in lower case with underscores for hyphens. -/
def Text.underscored (text : String) : String :=
  String.ofList ((Text.lowercase text).toList.map fun c => if c = '-' then '_' else c)

theorem MappingKind.ofName?_eq_some_iff {text : String} {kind : MappingKind} :
    ofName? text = some kind ↔ Text.underscored text ∈ kind.names := by
  unfold ofName?
  rw [← Text.underscored]
  generalize Text.underscored text = word
  cases kind <;> split <;> simp_all [names]

namespace Settings

/-! ## Variables and their fields -/

/-- A variable of the environment: the field in which it has a say, and which texts name which of
the field's values. -/
structure Variable where
  key : String
  Value : Type
  field : Settings → Value
  Means : String → Value → Prop

/-- A lookup of variables: the text of each that is present. -/
abbrev Lookup := String → Option String

section

variable {lookup : Lookup} {s s' : Settings}

/-- A field follows its variable: it has the value that the variable names, or, if there is none,
the value from before. -/
def Variable.Follows (v : Variable) (lookup : Lookup) (s s' : Settings) : Prop :=
  (∃ text, lookup v.key = some text ∧ v.Means text (v.field s')) ∨
    (∀ text, lookup v.key = some text → ∀ value, ¬v.Means text value) ∧ v.field s' = v.field s

/-- Where a reader reads the texts that have a meaning, the field that follows a variable is the one
chosen with the reader. -/
theorem Variable.follows_iff (v : Variable) {read? : String → Option v.Value}
    (hread : ∀ {text value}, read? text = some value ↔ v.Means text value) :
    v.Follows lookup s s' ↔ v.field s' = chosen lookup v.key read? (v.field s) := by
  rw [Follows, chosen]
  cases hlookup : lookup v.key with
  | none => simp
  | some text =>
    simp only [Option.some.injEq, exists_eq_left', forall_eq', ← hread, Option.bind_some]
    cases hvalue : read? text with
    | none => simp
    | some value => simp [eq_comm]

/-- The words of a flag. -/
def flagWords : Bool → List String
  | true => ["true", "1", "yes"]
  | false => ["false", "0", "no"]

/-- A word of a flag means its value, and other texts mean nothing. -/
def IsFlagWord (text : String) (value : Bool) : Prop := text ∈ flagWords value

/-- The words for yes mean yes, and all other texts mean no. -/
def CountsAs (text : String) (value : Bool) : Prop := value = true ↔ IsFlagWord text true

theorem isYes_iff {text : String} : isYes text = true ↔ IsFlagWord text true := by
  simp [isYes, IsFlagWord, flagWords, or_assoc]

theorem isYes_of_isFlagWord {text : String} {value : Bool} (h : IsFlagWord text value) :
    isYes text = value := by
  cases value with
  | true => exact isYes_iff.mpr h
  | false =>
    simp only [IsFlagWord, flagWords, List.mem_cons, List.not_mem_nil, or_false] at h
    rcases h with rfl | rfl | rfl <;> decide

theorem isYes_eq_some_iff {text : String} {value : Bool} :
    some (isYes text) = some value ↔ CountsAs text value := by
  rw [CountsAs, ← isYes_iff, Option.some.injEq, eq_comm, Bool.eq_iff_iff]

namespace Variable

def logLevel : Variable where
  key := "RDG_LOG_LEVEL"
  Value := LogLevel
  field s := s.general.logLevel
  Means text level := Text.lowercase text ∈ level.names

def format : Variable where
  key := "RDG_FORMAT"
  Value := OutputFormat
  field s := s.general.format
  Means text format := Text.lowercase text ∈ format.names

def kind (key : String) (field : Settings → MappingKind) : Variable where
  key := key
  Value := MappingKind
  field := field
  Means text kind := Text.underscored text ∈ kind.names

def maxDepth : Variable where
  key := "RDG_MAX_DEPTH"
  Value := Nat
  field s := s.reasoning.maxDepth
  Means text n := Text.IsCount text.toList n

def flag (Means : String → Bool → Prop) (key : String) (field : Settings → Bool) : Variable where
  key := key
  Value := Bool
  field := field
  Means := Means

end Variable

/-- The variables that ignore the texts which name none of their values. -/
def wordVariables : List Variable := [
  .logLevel,
  .format,
  .kind "RDG_RESOURCE_KIND" fun s => s.validation.resourceKind,
  .kind "RDG_SUBJECT_KIND" fun s => s.validation.subjectKind,
  .kind "RDG_OBJECT_KIND" fun s => s.validation.objectKind,
  .maxDepth]

/-- The flags with their fields. -/
def flags : List (String × (Settings → Bool)) := [
  ("RDG_TRANSLATE", fun s => s.validation.translate),
  ("RDG_DEFAULTS", fun s => s.validation.closedWorldDefaults),
  ("RDG_STRICT_RESOURCE", fun s => s.validation.strictResource)]

/-- All variables, where the texts of flags mean what `Means` says. -/
def allVariables (Means : String → Bool → Prop) : List Variable :=
  wordVariables ++ flags.map fun f => .flag Means f.1 f.2

/-- The settings `s'` are `s` as the variables override them: nine fields follow their variables,
and the other four are as before. -/
structure Overridden (Means : String → Bool → Prop) (lookup : Lookup) (s s' : Settings) : Prop where
  follows : ∀ v ∈ allVariables Means, v.Follows lookup s s'
  baseUri : s'.general.baseUri = s.general.baseUri
  color : s'.general.color = s.general.color
  ontologies : s'.reasoning.ontologies = s.reasoning.ontologies
  prefixes : s'.prefixes = s.prefixes

/-! ## The settings that follow all variables -/

/-- The field of a variable is chosen with a reader of the texts that have a meaning. -/
def Variable.IsRead (v : Variable) : Prop :=
  ∃ read? : String → Option v.Value,
    (∀ {text value}, read? text = some value ↔ v.Means text value) ∧
    ∀ (lookup : Lookup) (s : Settings),
      v.field (s.overriddenBy lookup) = chosen lookup v.key read? (v.field s)

theorem isRead_of_mem_allVariables : ∀ v ∈ allVariables CountsAs, v.IsRead := by
  have hword : ∀ v ∈ wordVariables, v.IsRead := by
    simp only [wordVariables, List.forall_mem_cons]
    -- each field of the overridden settings is chosen with the reader of its variable by definition
    exact ⟨⟨_, LogLevel.ofName?_eq_some_iff, fun _ _ => rfl⟩,
      ⟨_, OutputFormat.ofName?_eq_some_iff, fun _ _ => rfl⟩,
      ⟨_, MappingKind.ofName?_eq_some_iff, fun _ _ => rfl⟩,
      ⟨_, MappingKind.ofName?_eq_some_iff, fun _ _ => rfl⟩,
      ⟨_, MappingKind.ofName?_eq_some_iff, fun _ _ => rfl⟩,
      ⟨_, Text.count?_eq_some_iff, fun _ _ => rfl⟩, List.forall_mem_nil _⟩
  have hflag : ∀ f ∈ flags, (Variable.flag CountsAs f.1 f.2).IsRead := by
    simp only [flags, List.forall_mem_cons]
    exact ⟨⟨_, isYes_eq_some_iff, fun _ _ => rfl⟩, ⟨_, isYes_eq_some_iff, fun _ _ => rfl⟩,
      ⟨_, isYes_eq_some_iff, fun _ _ => rfl⟩, List.forall_mem_nil _⟩
  exact List.forall_mem_append.mpr ⟨hword, List.forall_mem_map.mpr hflag⟩

/-- Settings that agree in the fields of all variables and in the other four are equal. -/
theorem eq_of_forall_field (Means : String → Bool → Prop) {s₁ s₂ : Settings}
    (h : ∀ v ∈ allVariables Means, v.field s₁ = v.field s₂)
    (hbase : s₁.general.baseUri = s₂.general.baseUri)
    (hcolor : s₁.general.color = s₂.general.color)
    (hontologies : s₁.reasoning.ontologies = s₂.reasoning.ontologies)
    (hprefixes : s₁.prefixes = s₂.prefixes) : s₁ = s₂ := by
  obtain ⟨⟨_, _, _, _⟩, ⟨_, _, _, _, _, _⟩, ⟨_, _⟩, _⟩ := s₁
  obtain ⟨⟨_, _, _, _⟩, ⟨_, _, _, _, _, _⟩, ⟨_, _⟩, _⟩ := s₂
  simp only [allVariables, wordVariables, flags, List.map_cons, List.map_nil,
    List.forall_mem_append, List.forall_mem_cons, Variable.logLevel, Variable.format,
    Variable.kind, Variable.maxDepth, Variable.flag] at h
  simp_all

theorem overridden_overriddenBy (s : Settings) (lookup : Lookup) :
    Overridden CountsAs lookup s (s.overriddenBy lookup) where
  follows v hv := by
    obtain ⟨read?, hread, hfield⟩ := isRead_of_mem_allVariables v hv
    exact (v.follows_iff hread).mpr (hfield lookup s)
  baseUri := rfl
  color := rfl
  ontologies := rfl
  prefixes := rfl

/-- There is only one way to follow all variables. -/
theorem Overridden.unique {s₁ s₂ : Settings} (h₁ : Overridden CountsAs lookup s s₁)
    (h₂ : Overridden CountsAs lookup s s₂) : s₁ = s₂ := by
  refine eq_of_forall_field CountsAs (fun v hv => ?_) (h₁.baseUri.trans h₂.baseUri.symm)
    (h₁.color.trans h₂.color.symm) (h₁.ontologies.trans h₂.ontologies.symm)
    (h₁.prefixes.trans h₂.prefixes.symm)
  obtain ⟨read?, hread, -⟩ := isRead_of_mem_allVariables v hv
  rw [(v.follows_iff hread).mp (h₁.follows v hv), (v.follows_iff hread).mp (h₂.follows v hv)]

theorem overriddenBy_eq_iff : s.overriddenBy lookup = s' ↔ Overridden CountsAs lookup s s' := by
  constructor
  · rintro rfl
    exact overridden_overriddenBy s lookup
  · exact (overridden_overriddenBy s lookup).unique

/-- What other variables say is not seen in the field of a variable. -/
theorem field_overriddenBy_congr {v : Variable} (hv : v ∈ allVariables CountsAs)
    {lookup' : Lookup} (h : lookup' v.key = lookup v.key) :
    v.field (s.overriddenBy lookup') = v.field (s.overriddenBy lookup) := by
  obtain ⟨read?, -, hfield⟩ := isRead_of_mem_allVariables v hv
  rw [hfield, hfield, chosen, chosen, h]

/-- A flag ignores the texts that are none of its words, unless it is set: then they turn it
off. -/
theorem follows_flag_iff {key : String} {field : Settings → Bool}
    (h : (Variable.flag CountsAs key field).Follows lookup s s') :
    (Variable.flag IsFlagWord key field).Follows lookup s s' ↔
      ∀ text, lookup key = some text → (∃ value, IsFlagWord text value) ∨ field s = false := by
  have hchosen : field s' = chosen lookup key (fun text => some (isYes text)) (field s) :=
    ((Variable.flag CountsAs key field).follows_iff isYes_eq_some_iff).mp h
  rw [Variable.Follows]
  dsimp only [Variable.flag]
  rw [hchosen, chosen]
  cases hlookup : lookup key with
  | none => simp
  | some text =>
    simp only [Option.some.injEq, exists_eq_left', forall_eq', Option.bind_some, Option.getD_some]
    -- a word names the value that it counts as; any other text counts as no
    by_cases hword : ∃ value, IsFlagWord text value
    · obtain ⟨value, hvalue⟩ := hword
      rw [isYes_of_isFlagWord hvalue]
      exact iff_of_true (.inl hvalue) (.inl ⟨value, hvalue⟩)
    · have hno : isYes text = false :=
        Bool.eq_false_iff.mpr fun hyes => hword ⟨true, isYes_iff.mp hyes⟩
      rw [hno]
      simp only [not_exists.mp hword, false_or, not_false_eq_true, implies_true, true_and,
        exists_false, eq_comm]

/-- Flags ignore all but their words exactly where no other text is there for a flag that is set. -/
theorem overridden_isFlagWord_iff :
    Overridden IsFlagWord lookup s (s.overriddenBy lookup) ↔
      ∀ f ∈ flags, ∀ text, lookup f.1 = some text →
        (∃ value, IsFlagWord text value) ∨ f.2 s = false := by
  have h := overridden_overriddenBy s lookup
  -- the two rules differ at the flags only
  obtain ⟨hword, hflag⟩ := List.forall_mem_append.mp h.follows
  have hiff : ∀ f ∈ flags, ((Variable.flag IsFlagWord f.1 f.2).Follows lookup s
      (s.overriddenBy lookup) ↔ ∀ text, lookup f.1 = some text →
        (∃ value, IsFlagWord text value) ∨ f.2 s = false) :=
    fun f hf => follows_flag_iff (List.forall_mem_map.mp hflag f hf)
  constructor
  · intro h' f hf
    exact (hiff f hf).mp (List.forall_mem_map.mp (List.forall_mem_append.mp h'.follows).2 f hf)
  · intro hturns
    refine { h with follows := List.forall_mem_append.mpr ⟨hword, ?_⟩ }
    exact List.forall_mem_map.mpr fun f hf => (hiff f hf).mpr (hturns f hf)

/-- **The settings as variables override them.** They are the only ones in which nine fields follow
their variables, flags by the rule that all but the words for yes mean no, and the other four are as
before; what a variable says is seen in its own field only. Flags ignore texts that are none of
their words, as the other variables ignore theirs, exactly when no such text is there for a flag
that is set. -/
theorem overriddenBy_follows_variables (s : Settings) (lookup : Lookup) :
    (∀ s', s.overriddenBy lookup = s' ↔ Overridden CountsAs lookup s s') ∧
    (∀ v ∈ allVariables CountsAs, ∀ lookup' : Lookup, lookup' v.key = lookup v.key →
      v.field (s.overriddenBy lookup') = v.field (s.overriddenBy lookup)) ∧
    (Overridden IsFlagWord lookup s (s.overriddenBy lookup) ↔
      ∀ f ∈ flags, ∀ text, lookup f.1 = some text →
        (∃ value, IsFlagWord text value) ∨ f.2 s = false) :=
  ⟨fun _ => overriddenBy_eq_iff, fun _ hv _ h => field_overriddenBy_congr hv h,
    overridden_isFlagWord_iff⟩

end

namespace UnknownFlag

/-- A flag is given a text that is none of its words. -/
def lookup : Lookup := fun key => if key = "RDG_TRANSLATE" then some "maybe" else none

/-- Translation is on, and a text without a meaning turns it off. -/
theorem not_forall_overridden_isFlagWord :
    ¬∀ (s : Settings) (lookup : Lookup),
      Overridden IsFlagWord lookup s (s.overriddenBy lookup) := by
  intro h
  have hword := overridden_isFlagWord_iff.mp (h default lookup) _ List.mem_cons_self "maybe" rfl
  revert hword
  simp [IsFlagWord, flagWords, default, Conformance.Options.default]

end UnknownFlag

end Settings

end GraphConformance
