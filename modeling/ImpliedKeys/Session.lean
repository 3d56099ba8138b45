import ImpliedKeys.Analysis.Run

/-!
# Sessions

A session keeps a schema, settings and the latest findings. Edits change the schema; an analysis
that succeeds replaces the findings and attaches its names to the schema, and one that ends with a
defect changes nothing. A history of such actions runs from left to right.
-/
namespace ImpliedKeys

/-- A change to a schema. A table that is changed is given by the name under which it is stored. -/
inductive Edit where
  | addTable (table : Table)
  | removeTable (key : String)
  | setSchemaName (key : String) (schemaName : Option String)
  | addColumn (key : String) (column : Column)
  | addIndex (key : String) (index : Index)
  | addConstraint (key : String) (constraint : Constraint)
  deriving DecidableEq

namespace Edit

/-- The schema after an edit. A change to a table that is not there does nothing. A new schema name
leaves a table stored where it was. -/
def apply : Edit → Schema → Schema
  | addTable t, s => s.addTable t
  | removeTable key, s => s.removeTable key
  | setSchemaName key n, s => s.modifyTable key fun t => { t with schemaName := n }
  | addColumn key c, s => s.modifyTable key fun t => { t with columns := t.columns ++ [c] }
  | addIndex key i, s => s.modifyTable key fun t => { t with indexes := t.indexes ++ [i] }
  | addConstraint key c, s =>
    s.modifyTable key fun t => { t with constraints := t.constraints ++ [c] }

end Edit

structure Session where
  schema : Schema := { version := "1.0" }
  config : Config := {}
  latest : Findings := {}
  deriving DecidableEq

namespace Session

def edit (session : Session) (e : Edit) : Session :=
  { session with schema := e.apply session.schema }

def configure (session : Session) (config : Config) : Session := { session with config }

/-- The session after an analysis, and the defect that the analysis met, if any. -/
def analyze (session : Session) (namer : Namer) : Session × Option Defect :=
  let run := ImpliedKeys.analyze session.config namer session.schema
  match run.outcome with
  | .ok found => ({ session with schema := run.schema, latest := found }, none)
  | .error d => ({ session with schema := run.schema }, some d)

end Session

inductive Action where
  | edit (e : Edit)
  | configure (config : Config)
  | analyze (namer : Namer)

namespace Session

def act (session : Session) : Action → Session
  | .edit e => session.edit e
  | .configure config => session.configure config
  | .analyze namer => (session.analyze namer).1

def run (start : Session) (history : List Action) : Session := history.foldl act start

@[simp]
theorem run_nil (start : Session) : start.run [] = start := rfl

@[simp]
theorem run_concat (start : Session) (history : List Action) (a : Action) :
    start.run (history ++ [a]) = (start.run history).act a := by
  simp [run]

end Session

end ImpliedKeys
