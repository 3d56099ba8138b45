import ImpliedKeys.Analysis.Report

/-!
# The command line

A command line has options and the command `analyze` with its path. Every option may stand before
the command and after it, at each of the two places once; what stands after the command counts
more. A value is checked when the next argument shows that it is complete, so that an argument that
is not known is noticed before a bad value right in front of it.
-/
namespace ImpliedKeys.CommandLine

/-- Why a command line starts no analysis. -/
inductive Stop where
  | missingPath
  | missingCommand
  | unknownArgument
  | unknownCommand
  | badValue
  | repeatedOption
  | surplusValue
  | help
  | version (program : String)
  /-- Nothing was asked for at all. -/
  | nothing
  deriving DecidableEq, Inhabited

/-- What a value on the command line is for. -/
inductive Slot where
  | config
  | format
  | path
  deriving DecidableEq, Inhabited

inductive Switch where
  /-- An option that is followed by its value. -/
  | valued (slot : Slot)
  | verbose
  | noColour
  | help
  | version
  deriving DecidableEq, Inhabited

def Switch.ofName? : String → Option Switch
  | "config" => some (.valued .config)
  | "format" => some (.valued .format)
  | "verbose" => some .verbose
  | "no-color" => some .noColour
  | "help" => some .help
  | "version" => some .version
  | _ => none

def Switch.ofLetter? : Char → Option Switch
  | 'c' => some (.valued .config)
  | 'v' => some .verbose
  | 'h' => some .help
  | 'V' => some .version
  | _ => none

/-- What has been given at one place of the command line. -/
structure Given where
  config : Option String := none
  verbose : Bool := false
  noColour : Bool := false
  format : Option ReportFormat := none
  path : Option String := none
  deriving DecidableEq, Inhabited

def format? : String → Option ReportFormat
  | "text" => some .text
  | "json" => some .json
  | _ => none

/-- Takes a value that is complete. -/
def Given.set (g : Given) (slot : Slot) (value : String) : Except Stop Given :=
  match slot with
  | .config =>
    if g.config.isSome then .error .repeatedOption
    else if value = "" then .error .badValue
    else .ok { g with config := some value }
  | .format =>
    if g.format.isSome then .error .repeatedOption
    else
      match format? value with
      | none => .error .badValue
      | some f => .ok { g with format := some f }
  | .path => if value = "" then .error .badValue else .ok { g with path := some value }

/-- An argument by its form. -/
inductive Argument where
  | dashes
  | long (name : String) (value : Option String)
  | letters (cs : List Char)
  | word
  deriving DecidableEq, Inhabited

def Argument.ofString (text : String) : Argument :=
  match text.toList with
  | ['-', '-'] => .dashes
  | '-' :: '-' :: cs =>
    let name := String.ofList (cs.takeWhile (· ≠ '='))
    match cs.dropWhile (· ≠ '=') with
    | [] => .long name none
    | _ :: value => .long name (some (String.ofList value))
  | '-' :: c :: cs => .letters (c :: cs)
  | _ => .word

/-- How far the arguments at one place have been read. -/
structure Reading where
  program : String
  given : Given := {}
  /-- An option or argument that is not complete yet, and its value once that has come. -/
  pending : Option (Slot × Option String) := none
  /-- Whether no more options are expected. -/
  afterDashes : Bool := false
  deriving DecidableEq

namespace Reading

def wantsValue (r : Reading) : Bool :=
  match r.pending with
  | some (_, none) => true
  | _ => false

def settle (r : Reading) : Except Stop Reading :=
  match r.pending with
  | none => .ok r
  | some (_, none) => .error .badValue
  | some (slot, some value) =>
    (r.given.set slot value).map fun given => { r with given, pending := none }

def takeFlag (r : Reading) (s : Switch) : Except Stop Reading := do
  let r ← r.settle
  match s with
  | .valued slot => return { r with pending := some (slot, none) }
  | .verbose =>
    if r.given.verbose then .error .repeatedOption
    else return { r with given := { r.given with verbose := true } }
  | .noColour =>
    if r.given.noColour then .error .repeatedOption
    else return { r with given := { r.given with noColour := true } }
  | .help => .error .help
  | .version => .error (.version r.program)

def takeAttached (r : Reading) (slot : Slot) (value : String) : Except Stop Reading := do
  let r ← r.settle
  let given ← r.given.set slot value
  return { r with given }

def takeLong (r : Reading) (name : String) (value : Option String) : Except Stop Reading :=
  match Switch.ofName? name, value with
  | none, _ => .error .unknownArgument
  | some (.valued slot), some value => r.takeAttached slot value
  | some _, some _ => .error .surplusValue
  | some s, none => r.takeFlag s

/-- Takes options that are given by their letters; what follows the letter of an option with a
value is that value. -/
def takeLetters (r : Reading) : List Char → Except Stop Reading
  | [] => .ok r
  | c :: cs =>
    match Switch.ofLetter? c with
    | none => .error .unknownArgument
    | some (.valued slot) =>
      match cs with
      | [] => r.takeFlag (.valued slot)
      | '=' :: cs => r.takeAttached slot (String.ofList cs)
      | cs => r.takeAttached slot (String.ofList cs)
    | some s =>
      match r.takeFlag s with
      | .ok r => r.takeLetters cs
      | .error stop => .error stop

/-- Takes an argument; `takeWord` takes one that is neither an option nor an option's value. -/
def take (takeWord : Reading → String → Except Stop Reading) (r : Reading) (text : String) :
    Except Stop Reading :=
  if r.afterDashes then takeWord r text
  else
    match Argument.ofString text with
    | .dashes => .ok { r with afterDashes := true }
    | .long name value => r.takeLong name value
    | .letters cs => r.takeLetters cs
    | .word =>
      match r.pending with
      | some (slot, none) => .ok { r with pending := some (slot, some text) }
      | _ => takeWord r text

def takePath (r : Reading) (text : String) : Except Stop Reading :=
  if r.given.path.isSome || (r.pending.map (·.1)) = some .path then .error .unknownArgument
  else r.settle.map fun r => { r with pending := some (.path, some text) }

end Reading

def commands : List String := ["analyze", "help"]

/-- Takes a word before the command that is none; a command must not stand after dashes. -/
def refuseWord (r : Reading) (text : String) : Except Stop Reading :=
  .error (if r.afterDashes && text ∈ commands then .unknownArgument else .unknownCommand)

/-- What a command line asks for. -/
structure Options where
  config : Option String := none
  verbose : Bool := false
  noColour : Bool := false
  format : ReportFormat := .text
  path : String
  deriving DecidableEq, Inhabited

/-- What is asked for before the command and after it together. -/
def combine (before after : Given) (path : String) : Options where
  config := after.config.or before.config
  verbose := after.verbose || before.verbose
  noColour := after.noColour || before.noColour
  format := (after.format.or before.format).getD .text
  path := path

/-- What a request for help with some command comes to. -/
def helpFor : List String → Stop
  | [] => .help
  | [name] => if name ∈ commands then .help else .unknownCommand
  | _ => .unknownCommand

def programName : String := "schema-assoc"

def readCommand (args : List String) : Except Stop (Given × String) := do
  let r ← args.foldlM (Reading.take Reading.takePath) { program := programName ++ "-analyze" }
  let r ← r.settle
  match r.given.path with
  | some path => return (r.given, path)
  | none => .error .missingPath

/-- Reads arguments up to the command, and then those of the command. -/
def readFrom (r : Reading) : List String → Except Stop Options
  | [] => do
    let r ← r.settle
    .error (if r.given = {} then .nothing else .missingCommand)
  | text :: rest =>
    if text ∈ commands ∧ !r.afterDashes ∧ !r.wantsValue then
      if text = "help" then .error (helpFor rest)
      else do
        let (given, path) ← readCommand rest
        let r ← r.settle
        return combine r.given given path
    else
      match r.take refuseWord text with
      | .ok r => readFrom r rest
      | .error stop => .error stop

def read (args : List String) : Except Stop Options := readFrom { program := programName } args

end ImpliedKeys.CommandLine
