import ImpliedKeys.Analysis.ConfigYaml
import ImpliedKeys.Command.Analyze
import ImpliedKeys.Command.Line
import ImpliedKeys.Schema.Yaml

/-!
# The program

The program reads settings and schemas in YAML. A run of it prints a report, or fails, or stops at its
command line. Its exit code and its two outputs follow from how it ends.
-/
namespace ImpliedKeys

def Decoders.yaml : Decoders where
  config := Config.ofYaml?
  schema := Schema.ofYaml?

namespace CommandLine

def version : String := "0.1.0"

def usage : String :=
  "Infer undeclared foreign key relationships from schema naming conventions\n\n" ++
  "Usage: " ++ programName ++ " [OPTIONS] analyze <PATH>\n\n" ++
  "Arguments:\n" ++
  "  <PATH>  Schema file or directory\n\n" ++
  "Options:\n" ++
  "  -c, --config <FILE>    Path to configuration file\n" ++
  "  -v, --verbose          Enable verbose output\n" ++
  "      --no-color         Disable colored output\n" ++
  "      --format <FORMAT>  Output format: text (default) or json\n" ++
  "  -h, --help             Print help\n" ++
  "  -V, --version          Print version\n"

namespace Stop

/-- Whether a stop is what was asked for. -/
def isWanted : Stop → Bool
  | help | version _ => true
  | _ => false

def message : Stop → String
  | missingPath => "error: the path of a schema is missing\n\n" ++ usage
  | missingCommand => "error: a command is missing\n\n" ++ usage
  | unknownArgument => "error: an argument is not known\n\n" ++ usage
  | unknownCommand => "error: there is no such command\n\n" ++ usage
  | badValue => "error: a value is missing or not allowed\n\n" ++ usage
  | repeatedOption => "error: an option is given more than once\n\n" ++ usage
  | surplusValue => "error: an option without value is given one\n\n" ++ usage
  | help | nothing => usage
  | version program => program ++ " " ++ CommandLine.version ++ "\n"

end Stop

/-- What a command line asks of a project. -/
def Options.request (o : Options) (project : String) (colours : Bool) : AnalyzeRequest where
  project := project
  config := o.config.map (Path.join project)
  schema := o.path
  format := o.format
  coloured := colours && !o.noColour

end CommandLine

/-- How a run of the program ends. -/
inductive Ending where
  | printed (text : String)
  | failed (f : Failure)
  | stopped (s : CommandLine.Stop)
  deriving DecidableEq, Inhabited

namespace Ending

def ofOutcome : Except Failure String → Ending
  | .ok text => printed text
  | .error f => failed f

def exitCode : Ending → Nat
  | printed _ => 0
  | failed _ => 1
  | stopped s => if s.isWanted then 0 else 2

def output : Ending → String
  | printed text => text ++ "\n"
  | failed _ => ""
  | stopped s => if s.isWanted then s.message else ""

def errors : Ending → String
  | printed _ => ""
  | failed f => "Error: " ++ f.message ++ "\n"
  | stopped s => if s.isWanted then "" else s.message

end Ending

end ImpliedKeys
