import ImpliedKeys.Identifier.MatchKey
import ImpliedKeys.Multimap
import ImpliedKeys.Schema.Basic

/-!
# Columns and tables by match key

The column index relates match keys to the columns that have them. The table index gives each table
the match keys of its name, with the leading word lists dropped that several tables share.
-/
namespace ImpliedKeys

open Identifier (MatchKey Word)

/-- Entries `name=[member, …]` between braces. -/
def listing (entries : List (String × List String)) : String :=
  let entry := fun (e : String × List String) =>
    e.1 ++ "=[" ++ String.intercalate ", " e.2 ++ "]"
  "\x7b" ++ String.intercalate ", " (entries.map entry) ++ "\x7d"

/-- Which columns have which match keys, from both sides. -/
structure ColumnIndex where
  columnsByKey : Multimap MatchKey ColumnRef := {}
  keysByColumn : Multimap ColumnRef MatchKey := {}

namespace ColumnIndex

/-- The index with one more match key of a column, entered on both sides. -/
def enter (index : ColumnIndex) (e : MatchKey × ColumnRef) : ColumnIndex where
  columnsByKey := index.columnsByKey.add e.1 e.2
  keysByColumn := index.keysByColumn.add e.2 e.1

def ofTable (key : String) (t : Table) : List (MatchKey × ColumnRef) :=
  t.columns.flatMap fun c =>
    (Identifier.columnKeys c.name).toList.map fun k => (k, ⟨key, c.name⟩)

def ofSchema (s : Schema) : ColumnIndex :=
  (s.tables.entries.flatMap fun e => ofTable e.1 e.2).foldl enter {}

def columnsMatching (index : ColumnIndex) (k : MatchKey) : SortedSet ColumnRef :=
  index.columnsByKey.get k

def keysFor (index : ColumnIndex) (r : ColumnRef) : SortedSet MatchKey := index.keysByColumn.get r

def keys (index : ColumnIndex) : SortedSet MatchKey := .ofList index.columnsByKey.keys

def text (index : ColumnIndex) : String :=
  listing <| index.keys.toList.map fun k =>
    (String.ofList k, (index.columnsMatching k).toList.map (·.text))

end ColumnIndex

/-- The non-empty word lists with which a word list begins and does not end. -/
def leadingParts (ws : List Word) : List (List Word) :=
  (List.range (ws.length - 1)).map fun n => ws.take (n + 1)

/-- The leading word lists of all table names, once per table. -/
def leadOccurrences (s : Schema) : List (List Word) :=
  s.tables.values.flatMap fun t => leadingParts (Identifier.words t.name)

/-- A leading word list with the number of tables that have it. -/
structure SharedLead where
  words : List Word
  tables : Nat
  deriving DecidableEq

namespace SharedLead

/-- What more tables share comes first; else the order is that of the words. -/
instance : Ord SharedLead :=
  ⟨fun a b => (compare b.tables a.tables).then (compare a.words b.words)⟩

end SharedLead

/-- The leading word lists that at least two tables share, at most `limit` of them, the most shared
first. -/
def sharedLeads (s : Schema) (limit : Nat) : List (List Word) :=
  let occurrences := leadOccurrences s
  let counted := (Increasing.ofList occurrences).map fun ws =>
    (⟨ws, occurrences.count ws⟩ : SharedLead)
  let ranked := (counted.filter (2 ≤ ·.tables)).mergeSort fun a b => (compare a b).isLE
  (ranked.take limit).map (·.words)

structure TableIndex where
  leads : List (List Word)
  keysByTable : NameMap (SortedSet MatchKey)

namespace TableIndex

def ofSchema (s : Schema) (limit : Nat) : TableIndex :=
  let leads := sharedLeads s limit
  ⟨leads, s.tables.mapWithName fun _ t => Identifier.tableKeys leads t.name⟩

def keysFor (index : TableIndex) (t : Table) : SortedSet MatchKey :=
  (index.keysByTable.get? t.fullName).getD .empty

def text (index : TableIndex) : String :=
  listing <| index.keysByTable.entries.map fun e => (e.1, e.2.toList.map String.ofList)

end TableIndex

end ImpliedKeys
