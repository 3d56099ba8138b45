import ImpliedKeys.Analysis.Config
import ImpliedKeys.Schema.Basic

/-!
# Which columns may be associated

The candidates of a table are the columns that others may refer to. The declared keys are the pairs
that foreign keys already connect. A pair of columns is admissible unless it is one column, is
declared in either direction, or breaks one of the settings.
-/
namespace ImpliedKeys

/-- The columns of a table that others may refer to: those of the first primary key, in the order of
the key, then those that are unique by themselves, if the settings let them count. -/
def candidates (useUniqueKeys : Bool) (t : Table) : List ColumnRef :=
  let unique := if useUniqueKeys then t.uniqueColumns else []
  ((t.primaryKey?.getD []) ++ unique).eraseDups.map t.ref

/-- The pairs of columns, parent first, that the foreign keys of a schema connect. -/
structure DeclaredKeys where
  pairs : List (ColumnRef × ColumnRef)

namespace DeclaredKeys

/-- The pairs of one constraint of a table stored under a name. A foreign key pairs its columns
place by place, as far as both lists go; one whose table is not found declares nothing. -/
def ofConstraint (s : Schema) (key : String) (t : Table) : Constraint →
    List (ColumnRef × ColumnRef)
  | .foreignKey columns written referenced =>
    match s.resolve? t written with
    | none => []
    | some parent => (columns.zip referenced).map fun (c, p) => (⟨parent, p⟩, ⟨key, c⟩)
  | _ => []

def ofSchema (s : Schema) : DeclaredKeys :=
  ⟨(s.tables.entries.flatMap fun (key, t) =>
    t.constraints.flatMap (ofConstraint s key t)).eraseDups⟩

/-- Whether two columns are declared to be connected, in whichever direction. -/
def connects (d : DeclaredKeys) (a b : ColumnRef) : Bool :=
  d.pairs.contains (a, b) || d.pairs.contains (b, a)

def size (d : DeclaredKeys) : Nat := d.pairs.length

end DeclaredKeys

/-- Whether two columns are found in their tables and have comparable types. -/
def typesComparable (p : Table) (parent : String) (c : Table) (child : String) : Bool :=
  match p.column? parent, c.column? child with
  | some a, some b => a.type.comparable b.type
  | _, _ => false

/-- Whether a parent and a child may be associated. -/
def admissible (config : Config) (s : Schema) (declared : DeclaredKeys)
    (parent child : ColumnRef) : Bool :=
  parent ≠ child &&
  !declared.connects parent child &&
  (config.allowSelfAssociations || parent.table ≠ child.table) &&
  match s.table? parent.table, s.table? child.table with
  | some p, some c =>
    !config.checkColumnTypes || typesComparable p parent.column c child.column
  | _, _ => false

end ImpliedKeys
