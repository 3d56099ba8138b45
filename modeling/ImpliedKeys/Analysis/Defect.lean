import ImpliedKeys.Schema.Basic

/-!
# Defects of a schema

An analysis starts only on a schema whose indexes and constraints name existing columns and tables.
The first defect is reported: tables come in the order of their keys, in a table the indexes before
the constraints, and of a foreign key its own columns, the numbers of columns, the table referred to
and the columns there.
-/
namespace ImpliedKeys

/-- Where a defect is, as far as that is known. -/
structure Location where
  table : Option String := none
  column : Option String := none
  deriving DecidableEq, Inhabited

namespace Location

/-- The location in brackets, or nothing if neither part is known. -/
def text (l : Location) : String :=
  let parts := (l.table.map ("table: " ++ ·)).toList ++ (l.column.map ("column: " ++ ·)).toList
  if parts.isEmpty then "" else " (" ++ String.intercalate ", " parts ++ ")"

end Location

inductive Defect where
  /-- An index or a constraint names a column that its table lacks. -/
  | unknownColumn (detail constraint : String) (location : Option Location)
  /-- A foreign key refers to a table that is not there. -/
  | unknownTable (table : String) (location : Option Location)
  /-- A foreign key connects different numbers of columns. -/
  | columnCounts (columns referenced : Nat) (location : Option Location)
  deriving DecidableEq, Inhabited

namespace Defect

def location? : Defect → Option Location
  | unknownColumn _ _ l | unknownTable _ l | columnCounts _ _ l => l

def headline : Defect → String
  | unknownColumn detail constraint _ => "Unknown column in " ++ constraint ++ ": " ++ detail
  | unknownTable table _ => "Unknown table '" ++ table ++ "' referenced by a foreign key"
  | columnCounts columns referenced _ =>
    "Foreign key column count mismatch: " ++ toString columns ++ " column(s) reference " ++
      toString referenced ++ " column(s)"

def message (d : Defect) : String := d.headline ++ (d.location?.map (·.text)).getD ""

/-- The defect that a table stored under `key` lacks a column. -/
def missingColumn (constraint key column : String) : Defect :=
  unknownColumn ("column '" ++ column ++ "' does not exist in table '" ++ key ++ "'") constraint
    (some { table := some key, column := some column })

/-- The defect that a table referred to lacks a column. -/
def missingReferenced (parent : Table) (column : String) : Defect :=
  unknownColumn
    ("referenced column '" ++ column ++ "' does not exist in table '" ++ parent.fullName ++ "'")
    "FOREIGN_KEY" (some { table := some parent.fullName, column := some column })

end Defect

namespace Table

def firstMissing? (t : Table) (columns : List String) : Option String :=
  columns.find? fun c => !t.hasColumn c

def indexDefect? (key : String) (t : Table) (index : Index) : Option Defect :=
  (t.firstMissing? index.columns).map (Defect.missingColumn ("index '" ++ index.name ++ "'") key)

end Table

namespace Schema

def referenced? (s : Schema) (referring : Table) (written : String) : Option Table :=
  (s.resolve? referring written).bind s.table?

/-- The defect of what a foreign key refers to. -/
def referenceDefect? (s : Schema) (key : String) (t : Table) (columns : List String)
    (written : String) (referenced : List String) : Option Defect :=
  if columns.length ≠ referenced.length then
    some (.columnCounts columns.length referenced.length (some { table := some key }))
  else
    match s.referenced? t written with
    | none => some (.unknownTable written (some { table := some key }))
    | some parent => (parent.firstMissing? referenced).map (Defect.missingReferenced parent)

def constraintDefect? (s : Schema) (key : String) (t : Table) (c : Constraint) : Option Defect :=
  match t.firstMissing? c.columns with
  | some column => some (Defect.missingColumn c.kind key column)
  | none =>
    match c with
    | .foreignKey columns written referenced =>
      s.referenceDefect? key t columns written referenced
    | _ => none

def tableDefect? (s : Schema) (key : String) (t : Table) : Option Defect :=
  (t.indexes.findSome? (t.indexDefect? key)).or
    (t.constraints.findSome? (s.constraintDefect? key t))

def defect? (s : Schema) : Option Defect :=
  s.tables.entries.findSome? fun e => s.tableDefect? e.1 e.2

end Schema

end ImpliedKeys
