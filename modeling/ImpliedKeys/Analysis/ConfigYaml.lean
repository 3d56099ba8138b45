import ImpliedKeys.Analysis.Config
import ImpliedKeys.Yaml.Document
import ImpliedKeys.Yaml.Record

/-!
# Settings in YAML

Settings are a YAML record. One that is absent has its default, so an empty text gives the defaults.
-/
namespace ImpliedKeys.Config

open Yaml (Node)

def ofNode? (n : Node) : Option Config := do
  let fields ← n.record? fieldNames
  return {
    useUniqueKeys := ← fields.optional? "use_unique_keys" true Node.flag?
    checkColumnTypes := ← fields.optional? "check_column_types" true Node.flag?
    allowSelfAssociations := ← fields.optional? "allow_self_associations" true Node.flag?
    maxTablePrefixes := ← fields.optional? "max_table_prefixes" 5 (Node.below? UInt64.size) }

def ofYaml? (text : String) : Option Config := (Yaml.read? text).bind ofNode?

end ImpliedKeys.Config
