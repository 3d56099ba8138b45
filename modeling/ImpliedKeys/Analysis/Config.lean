import ImpliedKeys.Json.Record

/-!
# Settings of an analysis

Three switches and a limit on the shared leading word lists, each with a default. Settings read
from a file must keep the limit small; the analysis itself accepts any.
-/
namespace ImpliedKeys

structure Config where
  /-- Whether a column that is unique by itself may be referred to. -/
  useUniqueKeys : Bool := true
  /-- Whether the two columns of an association must have comparable types. -/
  checkColumnTypes : Bool := true
  allowSelfAssociations : Bool := true
  /-- How many shared leading word lists are dropped from table names. -/
  maxTablePrefixes : Nat := 5
  deriving DecidableEq, Inhabited

namespace Config

def greatestLimit : Nat := 32

def isValid (c : Config) : Bool := c.maxTablePrefixes ≤ greatestLimit

def fieldNames : List String :=
  ["use_unique_keys", "check_column_types", "allow_self_associations", "max_table_prefixes"]

/-- Reads settings; one that is absent has its default. -/
def ofJson? (v : Json) : Option Config := do
  let fields ← v.record? fieldNames
  return {
    useUniqueKeys := ← fields.optional? "use_unique_keys" true Json.flag?
    checkColumnTypes := ← fields.optional? "check_column_types" true Json.flag?
    allowSelfAssociations := ← fields.optional? "allow_self_associations" true Json.flag?
    maxTablePrefixes := ← fields.optional? "max_table_prefixes" 5 (Json.below? UInt64.size) }

def toJson (c : Config) : Json :=
  .obj [("allow_self_associations", .bool c.allowSelfAssociations),
    ("check_column_types", .bool c.checkColumnTypes),
    ("max_table_prefixes", .int c.maxTablePrefixes), ("use_unique_keys", .bool c.useUniqueKeys)]

/-- The settings on one line, as a log shows them. -/
def summary (c : Config) : String :=
  "AnalyzerConfig \x7b use_unique_keys: " ++ toString c.useUniqueKeys ++
  ", check_column_types: " ++ toString c.checkColumnTypes ++
  ", allow_self_associations: " ++ toString c.allowSelfAssociations ++
  ", max_table_prefixes: " ++ toString c.maxTablePrefixes ++ " \x7d"

end Config

end ImpliedKeys
