/-!
# Events

What an analysis and the loading of schemas tell a log, each with a level and fields.
-/
namespace ImpliedKeys

/-- How much a log must tell for an event to show. -/
inductive Level where
  | info
  | debug
  | trace
  deriving DecidableEq, Inhabited

def Level.name : Level → String
  | info => "INFO"
  | debug => "DEBUG"
  | trace => "TRACE"

/-- Something that a log is told. -/
inductive Event where
  | mergedDirectory (files tables : Nat)
  | resolvedConfig (summary : String)
  | tooFewTables (tables : Nat)
  | started (tables : Nat)
  | columnKeys (index : String)
  | tableKeys (index : String)
  | candidateCount (table : String) (candidates : Nat)
  | droppedReverse (association : String)
  | found (name association : String)
  | finished (keys : Nat)
  deriving DecidableEq, Inhabited

namespace Event

def level : Event → Level
  | started _ | finished _ => .info
  | mergedDirectory _ _ | resolvedConfig _ | tooFewTables _ | found _ _ => .debug
  | columnKeys _ | tableKeys _ | candidateCount _ _ | droppedReverse _ => .trace

def text : Event → String
  | mergedDirectory files tables =>
    "Merged schema directory files=" ++ toString files ++ " tables=" ++ toString tables
  | resolvedConfig summary => "Resolved analyzer config config=" ++ summary
  | tooFewTables n => "Too few tables for weak associations tables=" ++ toString n
  | started n => "Finding weak associations tables=" ++ toString n
  | columnKeys index => "Column match keys column_match_keys=" ++ index
  | tableKeys index => "Table match keys table_match_keys=" ++ index
  | candidateCount table n =>
    "Table candidate keys table=" ++ table ++ " candidates=" ++ toString n
  | droppedReverse association =>
    "Dropping reverse direction of 1:1 match association=" ++ association
  | found name association =>
    "Found weak association name=" ++ name ++ " association=" ++ association
  | finished n => "Finished weak association analysis weak_associations=" ++ toString n

def line (e : Event) : String := e.level.name ++ " " ++ e.text

end Event

end ImpliedKeys
