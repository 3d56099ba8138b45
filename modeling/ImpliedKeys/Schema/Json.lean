import ImpliedKeys.Json.Record
import ImpliedKeys.Schema.Basic

/-!
# Schemas in JSON

Reading accepts the record forms of `Json.record?`; writing gives canonical objects with every
component present, save that a table without a schema name has no such field. A column type that
is no well-formed built-in type is read as a database-specific one whenever it is an object whose
kind is a text, with all its other fields kept as parameters.
-/
namespace ImpliedKeys

namespace ColumnType

/-- The names of the built-in kinds; a kind may also be given by its place in this list. -/
def kinds : List String :=
  ["INTEGER", "VARCHAR", "TEXT", "BOOLEAN", "TIMESTAMP", "JSON", "DECIMAL", "FLOAT", "DOUBLE",
    "CHAR", "DATE", "TIME", "BLOB", "UUID", "JSONB", "ENUM"]

def kindNamed? (s : String) : Option String := if s ∈ kinds then some s else none

/-- The built-in kind that a tag names. -/
def kind? : Json → Option String
  | .str s => kindNamed? s
  | .int n => if 0 ≤ n then kinds[n.toNat]? else none
  | _ => none

/-- The built-in type of a kind whose components are well formed. The components with some names
are found by a function, which also refuses what is no record of them. -/
def builtin? (kind : String) (record : List String → Option (Fields Json)) : Option ColumnType :=
  match kind with
  | "INTEGER" => do
    let fields ← record ["precision"]
    return integer (← fields.optional? "precision" none (Json.nullable? Json.word?))
  | "VARCHAR" => do
    let fields ← record ["length"]
    return varchar (← fields.required? "length" Json.word?)
  | "TEXT" => (record []).map fun _ => text
  | "BOOLEAN" => (record []).map fun _ => boolean
  | "TIMESTAMP" => do
    let fields ← record ["with_time_zone"]
    return timestamp (← fields.optional? "with_time_zone" none (Json.nullable? Json.flag?))
  | "JSON" => (record []).map fun _ => json
  | "DECIMAL" => do
    let fields ← record ["precision", "scale"]
    return decimal (← fields.required? "precision" Json.word?)
      (← fields.required? "scale" Json.word?)
  | "FLOAT" => (record []).map fun _ => float
  | "DOUBLE" => (record []).map fun _ => double
  | "CHAR" => do
    let fields ← record ["length"]
    return char (← fields.required? "length" Json.word?)
  | "DATE" => (record []).map fun _ => date
  | "TIME" => do
    let fields ← record ["with_time_zone"]
    return time (← fields.optional? "with_time_zone" none (Json.nullable? Json.flag?))
  | "BLOB" => (record []).map fun _ => blob
  | "UUID" => (record []).map fun _ => uuid
  | "JSONB" => (record []).map fun _ => jsonb
  | "ENUM" => do
    let fields ← record ["name"]
    return enumeration (← fields.required? "name" Json.text?)
  | _ => none

/-- The database-specific type that an object with a text as its kind stands for. -/
def dialect? : Json → Option ColumnType
  | .obj fields => do
    let kind ← Fields.required? fields "kind" Json.text?
    return dialect kind (fields.filter (·.1 ≠ "kind"))
  | _ => none

def ofJson? (v : Json) : Option ColumnType :=
  let found := do
    let (tag, body) ← v.tagged? "kind"
    builtin? (← kind? tag) fun names => body.record? names
  found.or (dialect? v)

def wordJson (n : UInt32) : Json := .int n.toNat

def toJson : ColumnType → Json
  | integer p => .obj [("kind", .str "INTEGER"), ("precision", Json.orNull wordJson p)]
  | varchar n => .obj [("kind", .str "VARCHAR"), ("length", wordJson n)]
  | text => .obj [("kind", .str "TEXT")]
  | boolean => .obj [("kind", .str "BOOLEAN")]
  | timestamp z => .obj [("kind", .str "TIMESTAMP"), ("with_time_zone", Json.orNull .bool z)]
  | json => .obj [("kind", .str "JSON")]
  | decimal p s =>
    .obj [("kind", .str "DECIMAL"), ("precision", wordJson p), ("scale", wordJson s)]
  | float => .obj [("kind", .str "FLOAT")]
  | double => .obj [("kind", .str "DOUBLE")]
  | char n => .obj [("kind", .str "CHAR"), ("length", wordJson n)]
  | date => .obj [("kind", .str "DATE")]
  | time z => .obj [("kind", .str "TIME"), ("with_time_zone", Json.orNull .bool z)]
  | blob => .obj [("kind", .str "BLOB")]
  | uuid => .obj [("kind", .str "UUID")]
  | jsonb => .obj [("kind", .str "JSONB")]
  | enumeration n => .obj [("kind", .str "ENUM"), ("name", .str n)]
  | dialect k ps => .obj (NameMap.insertEntry "kind" (.str k) ps)

end ColumnType

namespace Constraint

/-- The constraint of a kind whose components are well formed. The components with some names are
found by a function, which also refuses what is no record of them. -/
def ofRecord? (kind : String) (record : List String → Option (Fields Json)) : Option Constraint :=
  match kind with
  | "PRIMARY_KEY" => do
    let fields ← record ["columns"]
    return primaryKey (← fields.required? "columns" Json.texts?)
  | "FOREIGN_KEY" => do
    let fields ← record ["columns", "referenced_table", "referenced_columns"]
    return foreignKey (← fields.required? "columns" Json.texts?)
      (← fields.required? "referenced_table" Json.text?)
      (← fields.required? "referenced_columns" Json.texts?)
  | "UNIQUE" => do
    let fields ← record ["columns"]
    return unique (← fields.required? "columns" Json.texts?)
  | "CHECK" => do
    let fields ← record ["columns", "check_expression"]
    return check (← fields.required? "columns" Json.texts?)
      (← fields.required? "check_expression" Json.text?)
  | _ => none

/-- Reads a constraint, whose kind must be given by name. -/
def ofJson? (v : Json) : Option Constraint := do
  let (tag, body) ← v.tagged? "type"
  ofRecord? (← tag.text?) fun names => body.record? names

def toJson : Constraint → Json
  | primaryKey cs => .obj [("columns", .texts cs), ("type", .str "PRIMARY_KEY")]
  | foreignKey cs t rs =>
    .obj [("columns", .texts cs), ("referenced_columns", .texts rs), ("referenced_table", .str t),
      ("type", .str "FOREIGN_KEY")]
  | unique cs => .obj [("columns", .texts cs), ("type", .str "UNIQUE")]
  | check cs e =>
    .obj [("check_expression", .str e), ("columns", .texts cs), ("type", .str "CHECK")]

end Constraint

namespace Index

def ofJson? (v : Json) : Option Index := do
  let fields ← v.record? ["name", "columns", "unique"]
  return {
    name := ← fields.required? "name" Json.text?
    columns := ← fields.required? "columns" Json.texts?
    unique := ← fields.optional? "unique" false Json.flag? }

def toJson (i : Index) : Json :=
  .obj [("columns", .texts i.columns), ("name", .str i.name), ("unique", .bool i.unique)]

end Index

namespace Column

def ofJson? (v : Json) : Option Column := do
  let fields ← v.record? ["name", "type", "nullable", "default_value", "auto_increment"]
  return {
    name := ← fields.required? "name" Json.text?
    type := ← fields.required? "type" ColumnType.ofJson?
    nullable := ← fields.optional? "nullable" false Json.flag?
    defaultValue := ← fields.optional? "default_value" none (Json.nullable? Json.text?)
    autoIncrement := ← fields.optional? "auto_increment" none (Json.nullable? Json.flag?) }

def toJson (c : Column) : Json :=
  .obj [("auto_increment", Json.orNull .bool c.autoIncrement),
    ("default_value", Json.orNull .str c.defaultValue), ("name", .str c.name),
    ("nullable", .bool c.nullable), ("type", c.type.toJson)]

end Column

namespace Table

/-- Reads a table. Names of implied keys are no part of the format. -/
def ofJson? (v : Json) : Option Table := do
  let fields ← v.record? ["schema", "name", "columns", "indexes", "constraints"]
  return {
    schemaName := ← fields.optional? "schema" none (Json.nullable? Json.text?)
    name := ← fields.required? "name" Json.text?
    columns := ← fields.required? "columns" (Json.list? Column.ofJson?)
    indexes := ← fields.optional? "indexes" [] (Json.list? Index.ofJson?)
    constraints := ← fields.optional? "constraints" [] (Json.list? Constraint.ofJson?) }

def toJson (t : Table) : Json :=
  let schemaField := match t.schemaName with
    | some s => [("schema", .str s)]
    | none => []
  .obj ([("columns", .arr (t.columns.map Column.toJson)),
    ("constraints", .arr (t.constraints.map Constraint.toJson)),
    ("indexes", .arr (t.indexes.map Index.toJson)), ("name", .str t.name)] ++ schemaField)

end Table

namespace Schema

/-- Reads the tables of a schema, which stay under the names they are given. -/
def tablesOfJson? : Json → Option (NameMap Table)
  | .obj fields => do
    let entries ← fields.mapM fun (key, v) => (Table.ofJson? v).map (key, ·)
    return .ofList entries
  | _ => none

def ofJson? (v : Json) : Option Schema := do
  let fields ← v.record? ["version", "tables"]
  return {
    version := ← fields.required? "version" Json.text?
    tables := ← fields.optional? "tables" .empty tablesOfJson? }

def toJson (s : Schema) : Json :=
  .obj [("tables", .obj (s.tables.mapWithName fun _ t => t.toJson).entries),
    ("version", .str s.version)]

end Schema

end ImpliedKeys
