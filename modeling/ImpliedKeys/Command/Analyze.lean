import ImpliedKeys.Analysis.ConfigFile
import ImpliedKeys.Analysis.Report
import ImpliedKeys.Analysis.Run
import ImpliedKeys.Schema.Load

/-!
# The analysis of a project

The settings are resolved, the schema is loaded and analysed, and the findings are reported. The
first of these steps that fails ends the whole. What the files' texts say is decided by given decoders.
-/
namespace ImpliedKeys

/-- What the texts of a project's files are decoded with. -/
structure Decoders where
  config : ConfigDecoder
  schema : SchemaDecoder

/-- What a project is asked for. -/
structure AnalyzeRequest where
  project : String
  /-- The settings file, if one is asked for. -/
  config : Option String := none
  /-- The schema file or directory, as seen from the project. -/
  schema : String
  format : ReportFormat := .text
  coloured : Bool := false
  deriving DecidableEq

/-- How the analysis of a project ends, and what it told the log. -/
structure Answered where
  outcome : Except Failure String
  log : List Event := []

namespace AnalyzeRequest

def schemaPath (r : AnalyzeRequest) : String := Path.join r.project r.schema

/-- The paths at which files are looked for. -/
def paths (r : AnalyzeRequest) : List String :=
  [r.config.getD (Path.join r.project Config.fileName), r.schemaPath]

def report (r : AnalyzeRequest) (config : Config) (s : Schema) : Answered :=
  let run := analyze config Namer.conventional s
  match run.outcome with
  | .ok findings =>
    let tables := run.schema.tableCount
    { outcome := .ok ({ tables, findings : Report }.render r.coloured r.format)
      log := run.log }
  | .error d =>
    { outcome := whileDoing "Failed to analyze weak associations" (.error { cause := .defect d })
      log := run.log }

def answer (r : AnalyzeRequest) (decoders : Decoders) (view : FileView) : Answered :=
  match view.resolveConfig decoders.config r.project r.config with
  | .error f => { outcome := .error f }
  | .ok config =>
    let resolved := Event.resolvedConfig config.summary
    match whileDoing "Failed to parse schema" (view.load decoders.schema r.schemaPath) with
    | .error f => { outcome := .error f, log := [resolved] }
    | .ok loaded =>
      let answered := r.report config loaded.schema
      { answered with log := resolved :: loaded.log ++ answered.log }

end AnalyzeRequest

end ImpliedKeys
