import GraphConformance.CommandLine.Switch

/-!
# Arguments of the command line

The arguments are read from left to right into the values and flags that are given; a request for
help or for the version ends the reading where it stands. What is given then has to go together:
`Given.arguments?` checks that and answers what is to be done.
-/

set_option autoImplicit false

namespace GraphConformance.CommandLine

/-! ## Reading -/

/-- Why arguments cannot be understood. -/
inductive UsageError where
  | unknown (argument : String)
  | missingValue (argument : String)
  | unexpectedValue (argument : String)
  | invalidValue (value : String)
  | repeated
  | verboseAndQuiet
  | missingDocuments
deriving DecidableEq, Repr

def UsageError.message : UsageError → String
  | unknown argument => "unexpected argument '" ++ argument ++ "' found"
  | missingValue argument => "a value is required for '" ++ argument ++ "' but none was supplied"
  | unexpectedValue argument => "unexpected value for '" ++ argument ++ "' found"
  | invalidValue value => "invalid value '" ++ value ++ "'"
  | repeated => "an argument cannot be used multiple times"
  | verboseAndQuiet => "the argument '--verbose' cannot be used with '--quiet'"
  | missingDocuments => "the arguments --template <FILE> and --instance <FILE> are required"

/-- What ends the reading of arguments early. -/
inductive Halt where
  | usage (error : UsageError)
  | help
  | version
deriving DecidableEq, Repr

/-- The values and flags given so far, the latest last. -/
structure Given where
  values : List (Parameter × String)
  flags : List Flag

namespace Given

/-- The value of a parameter. -/
def value? (g : Given) (p : Parameter) : Option String := g.values.lookup p

/-- Whether a flag is given. -/
def has (g : Given) (f : Flag) : Bool := g.flags.contains f

/-- Add a value. -/
def addValue (g : Given) (p : Parameter) (value : String) : Except Halt Given :=
  if !p.admits value then .error (.usage (.invalidValue value))
  else if (g.value? p).isSome && !p.isRepeatable then .error (.usage .repeated)
  else .ok { g with values := g.values ++ [(p, value)] }

/-- Add what needs no value. -/
def addFlag (g : Given) (f : Flag) : Except Halt Given :=
  if g.has f then .error (.usage .repeated) else .ok { g with flags := g.flags ++ [f] }

end Given

/-- Whether an argument may be the value of a parameter: a dash starts a switch, unless it stands
alone. -/
def mayBeValue (argument : String) : Bool := !argument.startsWith "-" || argument = "-"

/-- What one argument leaves to be done. -/
inductive Progress where
  /-- Nothing. -/
  | done (g : Given)
  /-- The value of a parameter has to follow. -/
  | awaiting (g : Given) (p : Parameter)

/-- A long switch, with the value attached to it. -/
def readLong (g : Given) (argument name : String) (attached : Option String) :
    Except Halt Progress :=
  match Switch.ofName? name, attached with
  | none, _ => .error (.usage (.unknown argument))
  | some (.parameter p), none => .ok (.awaiting g p)
  | some (.parameter p), some value => (g.addValue p value).map .done
  | some (.flag f), none => (g.addFlag f).map .done
  | some .help, none => .error .help
  | some .version, none => .error .version
  | some _, some _ => .error (.usage (.unexpectedValue argument))

/-- Letters after a dash: flags, and a parameter with its value attached to it at last. -/
def readLetters (argument : String) : List Char → Given → Except Halt Progress
  | [], g => .ok (.done g)
  | letter :: rest, g =>
    match Switch.ofLetter? letter with
    | none => .error (.usage (.unknown argument))
    | some .help => .error .help
    | some .version => .error .version
    | some (.flag f) =>
      match g.addFlag f with
      | .ok g => readLetters argument rest g
      | .error halt => .error halt
    | some (.parameter p) =>
      match rest with
      | [] => .ok (.awaiting g p)
      | '=' :: value => (g.addValue p (String.ofList value)).map .done
      | value => (g.addValue p (String.ofList value)).map .done

/-- One argument that is no value. -/
def readArgument (g : Given) (argument : String) : Except Halt Progress :=
  match argument.toList with
  | '-' :: '-' :: rest =>
    let name := String.ofList (rest.takeWhile (· ≠ '='))
    match rest.dropWhile (· ≠ '=') with
    | [] => readLong g argument name none
    | _ :: value => readLong g argument name (some (String.ofList value))
  | '-' :: letter :: rest => readLetters argument (letter :: rest) g
  | _ => .error (.usage (.unknown argument))

/-- All arguments. Nothing may follow two dashes alone. -/
def readArguments (g : Given) : List String → Except Halt Given
  | [] => .ok g
  | ["--"] => .ok g
  | "--" :: extra :: _ => .error (.usage (.unknown extra))
  | argument :: rest =>
    match readArgument g argument with
    | .error halt => .error halt
    | .ok (.done g) => readArguments g rest
    | .ok (.awaiting g p) =>
      match rest with
      | [] => .error (.usage (.missingValue argument))
      | value :: rest =>
        if mayBeValue value then
          match g.addValue p value with
          | .ok g => readArguments g rest
          | .error halt => .error halt
        else .error (.usage (.missingValue argument))

/-! ## Meaning -/

/-- What the program is to do. -/
inductive Task where
  | printSettings
  /-- Check a document against a template, both in files. -/
  | check (template candidate : String)
deriving DecidableEq, Repr

/-- A task and how it is to be done. -/
structure Arguments where
  task : Task
  /-- The file of the settings. -/
  config : Option String
  /-- The file of the output. -/
  output : Option String
  translatedOnly : Bool
  /-- The settings as the command line changes them. -/
  adjust : Settings → Settings

namespace Given

/-- The task, unless something is missing. -/
def task? (g : Given) : Option Task :=
  if g.has .printConfig then some .printSettings
  else
    match g.value? .template, g.value? .candidate with
    | some template, some candidate => some (.check template candidate)
    | _, _ => none

/-- The settings with what is given; ontologies come on top of those of the settings. -/
def adjust (g : Given) (s : Settings) : Settings :=
  let kind := fun p current => ((g.value? p).bind MappingKind.ofName?).getD current
  { s with
    general := { s.general with
      format := ((g.value? .format).bind OutputFormat.ofName?).getD s.general.format
      baseUri := (g.value? .base).or s.general.baseUri }
    validation := {
      resourceKind := kind .resourceKind s.validation.resourceKind
      subjectKind := kind .subjectKind s.validation.subjectKind
      objectKind := kind .objectKind s.validation.objectKind
      translate := s.validation.translate && !g.has .noTranslate
      closedWorldDefaults := s.validation.closedWorldDefaults && !g.has .noDefaults
      strictResource := s.validation.strictResource || g.has .strictResource }
    reasoning := { s.reasoning with
      ontologies := s.reasoning.ontologies ++
        (g.values.filter (·.1 = .ontology)).map Prod.snd } }

/-- What is to be done, if what is given goes together. -/
def arguments? (g : Given) : Except Halt Arguments :=
  if g.has .verbose && g.has .quiet then .error (.usage .verboseAndQuiet)
  else
    match g.task? with
    | none => .error (.usage .missingDocuments)
    | some task => .ok {
        task := task
        config := g.value? .config
        output := g.value? .output
        translatedOnly := g.has .translatedOnly
        adjust := g.adjust }

end Given

/-- What the arguments ask for. -/
def Arguments.read (arguments : List String) : Except Halt Arguments :=
  match readArguments ⟨[], []⟩ arguments with
  | .ok g => g.arguments?
  | .error halt => .error halt

end GraphConformance.CommandLine
