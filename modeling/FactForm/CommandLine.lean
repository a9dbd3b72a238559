import FactForm.Exchange
import FactForm.Program
import FactForm.Report

/-!
# FactForm.CommandLine

The command line as a function from arguments and standard input to what is printed.

* `Argument.classify` — what one argument is.
* `readOptions`       — the settings of a list of arguments, or a request for help or version.
* `execute`           — exit code, standard output and standard error.

The first argument that is no option starts the input, which takes all arguments after it.
-/

namespace FactForm
namespace CommandLine

inductive ValueOption where
  | display
  | atom
  | attr
  | facts
  | exclude
  deriving DecidableEq

namespace ValueOption

def flag : ValueOption → Text
  | .display => "--display".toList
  | .atom => "--atom".toList
  | .attr => "--attr".toList
  | .facts => "--facts".toList
  | .exclude => "--exclude".toList

def ofFlag? (arg : Text) : Option ValueOption :=
  [display, atom, attr, facts, exclude].find? (·.flag = arg)

/-- Options whose value may follow in the same argument, after an equals sign. -/
def joinable : List ValueOption := [display, atom, attr]

def joinedFlag (o : ValueOption) : Text := o.flag ++ ['=']

end ValueOption

/-- A text without the `lead` at its front, as often as it stands there. -/
def stripLead (lead s : Text) : Text :=
  match _h : Text.after? lead s with
  | some r => if lead.isEmpty then s else stripLead lead r
  | none => s
termination_by s.length
decreasing_by
  have := congrArg List.length (Text.after?_eq_some_iff.1 _h)
  rw [List.length_append] at this
  have : lead.length ≠ 0 := by simp_all
  omega

inductive Argument where
  | help
  | version
  | color (on : Bool)
  | option (o : ValueOption)
  | joined (o : ValueOption) (value : Text)
  | endOfOptions
  | unknownOption
  | word
  deriving DecidableEq

/-- The value of a joined option does not start with the flag and an equals sign. -/
def Argument.classify (arg : Text) : Argument :=
  if arg = "-h".toList ∨ arg = "--help".toList then .help
  else if arg = "-V".toList ∨ arg = "--version".toList then .version
  else if arg = "--color".toList then .color true
  else if arg = "--no-color".toList then .color false
  else if arg = "--".toList then .endOfOptions
  else
    match ValueOption.ofFlag? arg with
    | some o => .option o
    | none =>
      match ValueOption.joinable.find? fun o => o.joinedFlag.isPrefixOf arg with
      | some o => .joined o (stripLead o.joinedFlag arg)
      | none => if arg.head? = some '-' ∧ 1 < arg.length then .unknownOption else .word

structure Settings where
  input : Option Text
  display : Option Text
  atom : Option Text
  attributes : List Attribute
  facts : Text
  excluded : List Text
  color : Bool

def Settings.initial (color : Bool) : Settings := ⟨none, none, none, [], [], [], color⟩

inductive UsageError where
  | missingValue (flag : Text)
  | malformedAttribute (value : Text)
  | emptyAttributeId (value : Text)
  | unknownOption (arg : Text)
  | displayRequired
  | atomRequired
  | unreadableInput

def splitAt? (c : Char) (s : Text) : Option (Text × Text) :=
  match s.dropWhile (· ≠ c) with
  | [] => none
  | _ :: rest => some (s.takeWhile (· ≠ c), rest)

/-- Reads `id=label:source`, of which the source may be missing with its colon. -/
def readAttribute (value : Text) : Except UsageError Attribute :=
  match splitAt? '=' value with
  | none => .error (.malformedAttribute value)
  | some ([], _) => .error (.emptyAttributeId value)
  | some (id, rest) =>
    match splitAt? ':' rest with
    | some (label, source) => .ok ⟨id, label, source⟩
    | none => .ok ⟨id, rest, []⟩

def ValueOption.apply (s : Settings) (value : Text) : ValueOption → Except UsageError Settings
  | .display => .ok { s with display := some value }
  | .atom => .ok { s with atom := some value }
  | .attr =>
    match readAttribute value with
    | .ok a => .ok { s with attributes := s.attributes ++ [a] }
    | .error e => .error e
  | .facts => .ok { s with facts := s.facts ++ value ++ ['\n'] }
  | .exclude => .ok { s with excluded := s.excluded ++ [value] }

inductive Request where
  | help
  | version
  | run (settings : Settings)

def readOptions (s : Settings) : List Text → Except UsageError Request
  | [] => .ok (.run s)
  | arg :: rest =>
    match Argument.classify arg with
    | .help => .ok .help
    | .version => .ok .version
    | .color on => readOptions { s with color := on } rest
    | .endOfOptions => .ok (.run { s with input := some (Text.joinWith [' '] rest) })
    | .word => .ok (.run { s with input := some (Text.joinWith [' '] (arg :: rest)) })
    | .unknownOption => .error (.unknownOption arg)
    | .joined o value =>
      match o.apply s value with
      | .ok s => readOptions s rest
      | .error e => .error e
    | .option o =>
      match rest with
      | [] => .error (.missingValue arg)
      | value :: rest =>
        match o.apply s value with
        | .ok s => readOptions s rest
        | .error e => .error e

def versionText : Text := "atomform 0.1.0".toList

def helpText : Text := versionText ++ "

Validate and complete template-driven input against a pool of known atoms.

Usage:
  atomform --display <template> --atom <template> [OPTIONS] [--] <input...>

Options:
  --display <template>       Display template, e.g. \"::from -> ::to\".
  --atom <template>          Atom template, e.g. \"edge(::from,::to)\".
  --attr <id=label:source>   Label and value source of a placeholder. Repeatable.
                             Sources: empty (anything), #int, pred or pred[index].
  --facts <program>          Program text whose facts fill the atom pool. Repeatable.
  --exclude <suggestion>     Hide a suggestion. Repeatable.
  --color                    Force ANSI color output.
  --no-color                 Disable ANSI color output.
  -h, --help                 Show this help message.
  -V, --version              Print version information.

Input is taken from the remaining arguments, or from stdin when none are given.
Set RUST_LOG=debug (or trace) for engine logging.

Exit codes:
  0  Success.
  1  Invalid template configuration.
  2  Invalid arguments.
".toList

def UsageError.message : UsageError → Text
  | .missingValue flag => "error: ".toList ++ flag ++ " expects a value".toList
  | .malformedAttribute value =>
    "error: invalid --attr '".toList ++ value ++ "' (expected id=label:source)".toList
  | .emptyAttributeId value => "error: invalid --attr '".toList ++ value ++ "' (empty id)".toList
  | .unknownOption arg => "error: unknown option '".toList ++ arg ++ ['\'']
  | .displayRequired => "error: --display is required\n\n".toList ++ helpText
  | .atomRequired => "error: --atom is required\n\n".toList ++ helpText
  | .unreadableInput =>
    "error: failed to read stdin: stream did not contain valid UTF-8".toList

/-- Both templates must be given. -/
def Settings.definition (s : Settings) : Except UsageError KindDefinition :=
  match s.display, s.atom with
  | none, _ => .error .displayRequired
  | _, none => .error .atomRequired
  | some display, some atom =>
    .ok ((KindDefinition.ofTemplates display atom).withAttributes s.attributes)

/-- Standard input without the line ends that close it; `none` stands for bytes that are no text. -/
def Settings.inputText (s : Settings) (stdin : Option Text) : Except UsageError Text :=
  match s.input, stdin with
  | some input, _ => .ok input
  | none, some text => .ok (text.reverse.dropWhile fun c => c == '\r' || c == '\n').reverse
  | none, none => .error .unreadableInput

structure Outcome where
  exitCode : Nat
  stdout : Text
  stderr : Text

def lines (texts : List Text) : Text := texts.flatMap (· ++ ['\n'])

def Outcome.success (texts : List Text) : Outcome := ⟨0, lines texts, []⟩

def Outcome.failure (exitCode : Nat) (text : Text) : Outcome := ⟨exitCode, [], lines [text]⟩

def Settings.pool (s : Settings) : AtomSet :=
  AtomSet.ofList (parseAll (programFacts s.facts)).atoms

def run (library : PatternLibrary) (s : Settings) (stdin : Option Text) : Outcome :=
  match s.definition with
  | .error e => .failure 2 e.message
  | .ok definition =>
    match s.inputText stdin with
    | .error e => .failure 2 e.message
    | .ok input =>
      match Kind.compile library definition with
      | .error e => .failure 1 ("error: ".toList ++ e.message)
      | .ok kind => .success (report ⟨s.color⟩ kind s.pool s.excluded input)

def needsInput (color : Bool) (args : List Text) : Bool :=
  match readOptions (.initial color) args with
  | .ok (.run s) => s.input.isNone && s.definition.isOk
  | _ => false

/-- The effect of a command line; `color` is the choice of colours without an option. -/
def execute (library : PatternLibrary) (color : Bool) (args : List Text) (stdin : Option Text) :
    Outcome :=
  match readOptions (.initial color) args with
  | .error e => .failure 2 e.message
  | .ok .help => .success [helpText]
  | .ok .version => .success [versionText]
  | .ok (.run s) => run library s stdin

end CommandLine
end FactForm
