import ImpliedKeys.Schema.Json
import ImpliedKeys.Yaml.Document
import ImpliedKeys.Yaml.Record

/-!
# Schemas in YAML

The fields of schemas, tables, columns and indexes have known types. Column types and constraints
are read by their look and then as in JSON, so that a quoted number is no number there; the kind of
a constraint alone is known to be a text.
-/
namespace ImpliedKeys

open Yaml (Node Value)

namespace ColumnType

/-- The built-in kind that a tag names, or gives by its place. -/
def kindOfValue? : Value → Option String
  | .text s => kindNamed? s
  | .natural n => kinds[n]?
  | _ => none

/-- The database-specific type that a map with a text as its kind stands for. -/
def dialectOfValue? (v : Value) : Option ColumnType := do
  let (tag, params) ← v.tagged? "kind"
  match tag, ← params.toJson? with
  | .text kind, .obj fields => return dialect kind fields
  | _, _ => none

def ofValue? (v : Value) : Option ColumnType :=
  let found := do
    let (tag, body) ← v.tagged? "kind"
    builtin? (← kindOfValue? tag) fun names => body.record? names
  found.or (dialectOfValue? v)

def ofNode? (n : Node) : Option ColumnType := (Value.ofNode? n).bind ofValue?

end ColumnType

def Constraint.ofNode? (n : Node) : Option Constraint := do
  let (kind, body) ← n.tagged? "type"
  ofRecord? kind fun names => body.record? names

def Index.ofNode? (n : Node) : Option Index := do
  let fields ← n.record? ["name", "columns", "unique"]
  return {
    name := ← fields.required? "name" Node.string?
    columns := ← fields.required? "columns" (Node.list? Node.string?)
    unique := ← fields.optional? "unique" false Node.flag? }

def Column.ofNode? (n : Node) : Option Column := do
  let fields ← n.record? ["name", "type", "nullable", "default_value", "auto_increment"]
  return {
    name := ← fields.required? "name" Node.string?
    type := ← fields.required? "type" ColumnType.ofNode?
    nullable := ← fields.optional? "nullable" false Node.flag?
    defaultValue := ← fields.optional? "default_value" none (Node.optional? Node.string?)
    autoIncrement := ← fields.optional? "auto_increment" none (Node.optional? Node.flag?) }

def Table.ofNode? (n : Node) : Option Table := do
  let fields ← n.record? ["schema", "name", "columns", "indexes", "constraints"]
  return {
    schemaName := ← fields.optional? "schema" none (Node.optional? Node.string?)
    name := ← fields.required? "name" Node.string?
    columns := ← fields.required? "columns" (Node.list? Column.ofNode?)
    indexes := ← fields.optional? "indexes" [] (Node.list? Index.ofNode?)
    constraints := ← fields.optional? "constraints" [] (Node.list? Constraint.ofNode?) }

namespace Schema

def tablesOfNode? (n : Node) : Option (NameMap Table) := do
  let entries ← n.entriesByName?
  return .ofList (← entries.mapM fun (key, v) => (Table.ofNode? v).map (key, ·))

def ofNode? (n : Node) : Option Schema := do
  let fields ← n.record? ["version", "tables"]
  return {
    version := ← fields.required? "version" Node.string?
    tables := ← fields.optional? "tables" .empty tablesOfNode? }

def ofYaml? (text : String) : Option Schema := (Yaml.read? text).bind ofNode?

end Schema

end ImpliedKeys
