import ImpliedKeys.Analysis.Candidate
import ImpliedKeys.Analysis.Defect
import ImpliedKeys.Analysis.Event
import ImpliedKeys.Analysis.Findings
import ImpliedKeys.Analysis.Index

/-!
# The analysis

Every candidate column of every table is matched with the columns that share a match key with it,
or, if it is in a primary key, with its table. Admissible pairs are proposed, and of two pairs that
are each other's reverse the one with the smaller parent is kept. The kept pairs are gathered one
after the other: each joins the implied key of its name, and the name is attached to the tables of
its columns.
-/
namespace ImpliedKeys

open Identifier (MatchKey)

structure Lookup where
  declared : DeclaredKeys
  columns : ColumnIndex
  tables : TableIndex

namespace Lookup

def ofSchema (config : Config) (s : Schema) : Lookup where
  declared := .ofSchema s
  columns := .ofSchema s
  tables := .ofSchema s config.maxTablePrefixes

/-- The match keys under which children of a candidate are sought. -/
def soughtKeys (l : Lookup) (t : Table) (candidate : ColumnRef) : SortedSet MatchKey :=
  let own := l.columns.keysFor candidate
  if t.inPrimaryKey candidate.column then (l.tables.keysFor t).union own else own

def matching (l : Lookup) (t : Table) (candidate : ColumnRef) : SortedSet ColumnRef :=
  .ofList ((l.soughtKeys t candidate).toList.flatMap fun k => (l.columns.columnsMatching k).toList)

end Lookup

def proposalsOf (config : Config) (s : Schema) (l : Lookup) (t : Table) (candidate : ColumnRef) :
    List Association :=
  ((l.matching t candidate).toList.filter fun child =>
    child ≠ candidate && admissible config s l.declared candidate child).map (⟨candidate, ·⟩)

/-- All admissible pairs: by table, by candidate, by child. -/
def proposals (config : Config) (s : Schema) (l : Lookup) : List Association :=
  s.tables.values.flatMap fun t =>
    (candidates config.useUniqueKeys t).flatMap (proposalsOf config s l t)

/-- Whether a pair stays: its reverse is not proposed, or its parent is the smaller of the two
columns. -/
def staysAmong (all : List Association) (a : Association) : Bool :=
  a.flip ∉ all || compare a.parent a.child = .lt

/-- The pairs that stay when of two reverse pairs one is dropped. -/
def keepOneDirection (all : List Association) : List Association := all.filter (staysAmong all)

/-- What an analysis has gathered: implied keys by name, and the schema they are attached to. -/
structure Gathered where
  keys : NameMap ImpliedKey := .empty
  schema : Schema

namespace Gathered

/-- Puts a pair under its name, and attaches the name to the tables of both columns. -/
def add (namer : Namer) (g : Gathered) (a : Association) : Gathered :=
  let name := namer a.parent a.child
  { keys := g.keys.insert name (((g.keys.get? name).getD { name }).add a)
    schema := (g.schema.attach name a.parent.table).attach name a.child.table }

/-- Everything gathered from kept pairs, taken one after the other. -/
def ofPairs (namer : Namer) (s : Schema) (kept : List Association) : Gathered :=
  kept.foldl (add namer) { schema := s }

end Gathered

/-- How an analysis ends: with findings or with a defect, with the schema as it is then, and with
what it told the log. -/
structure Run where
  outcome : Except Defect Findings
  schema : Schema
  log : List Event

def keptPairs (config : Config) (s : Schema) : List Association :=
  keepOneDirection (proposals config s (.ofSchema config s))

/-- What an analysis with at least two tables tells the log. -/
def runLog (config : Config) (namer : Namer) (s : Schema) (found : Findings) : List Event :=
  let l := Lookup.ofSchema config s
  let all := proposals config s l
  [.started s.tableCount, .columnKeys l.columns.text, .tableKeys l.tables.text] ++
  s.tables.values.map (fun t =>
    .candidateCount t.fullName (candidates config.useUniqueKeys t).length) ++
  (all.filter fun a => !staysAmong all a).map (fun a => .droppedReverse a.text) ++
  (keepOneDirection all).map (fun a => .found (namer a.parent a.child) a.text) ++
  [.finished found.size]

def analyze (config : Config) (namer : Namer) (s : Schema) : Run :=
  match s.defect? with
  | some d => ⟨.error d, s, []⟩
  | none =>
    if s.tableCount < 2 then ⟨.ok {}, s, [.tooFewTables s.tableCount]⟩
    else
      let gathered := Gathered.ofPairs namer s (keptPairs config s)
      let found := Findings.ofUnordered gathered.keys.values
      ⟨.ok found, gathered.schema, runLog config namer s found⟩

end ImpliedKeys
