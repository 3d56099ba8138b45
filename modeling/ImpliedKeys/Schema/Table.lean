import ImpliedKeys.Schema.ColumnType

/-!
# Tables

A table has columns, indexes and constraints, and carries the names of the implied keys that an
analysis has attached to it. It is known by its qualified name; a column is known by the name of
its table and its own.
-/
namespace ImpliedKeys

/-- A column, by its table's name and its own. -/
structure ColumnRef where
  table : String
  column : String
  deriving DecidableEq, Inhabited

namespace ColumnRef

/-- References are ordered by table, then by column. -/
instance : Ord ColumnRef := ⟨compareLex (compareOn table) (compareOn column)⟩

instance : Std.TransOrd ColumnRef :=
  inferInstanceAs (Std.TransCmp (compareLex (compareOn table) (compareOn column)))

instance : Std.LawfulEqOrd ColumnRef where
  eq_of_compare {a b} h := by
    have h' : (compare a.table b.table).then (compare a.column b.column) = .eq := h
    obtain ⟨ht, hc⟩ := Ordering.then_eq_eq.mp h'
    have ht := Std.LawfulEqOrd.eq_of_compare ht
    have hc := Std.LawfulEqOrd.eq_of_compare hc
    cases a
    cases b
    simp_all

def text (r : ColumnRef) : String := r.table ++ "." ++ r.column

theorem compare_eq_lt_iff {a b : ColumnRef} :
    compare a b = .lt ↔ a.table < b.table ∨ a.table = b.table ∧ a.column < b.column := by
  have hthen : compare a b = (compare a.table b.table).then (compare a.column b.column) := rfl
  have hlt (x y : String) : compare x y = .lt ↔ x < y := compareOfLessAndEq_eq_lt
  rw [hthen, Ordering.then_eq_lt, hlt, hlt, Std.compare_eq_iff_eq]

end ColumnRef

structure Column where
  name : String
  type : ColumnType
  nullable : Bool := false
  defaultValue : Option String := none
  autoIncrement : Option Bool := none
  deriving DecidableEq, Inhabited

structure Index where
  name : String
  columns : List String
  unique : Bool := false
  deriving DecidableEq, Inhabited

inductive Constraint where
  | primaryKey (columns : List String)
  /-- The own columns refer, place by place, to columns of another table. -/
  | foreignKey (columns : List String) (referencedTable : String) (referencedColumns : List String)
  | unique (columns : List String)
  | check (columns : List String) (expression : String)
  deriving DecidableEq, Inhabited

namespace Constraint

def kind : Constraint → String
  | primaryKey _ => "PRIMARY_KEY"
  | foreignKey _ _ _ => "FOREIGN_KEY"
  | unique _ => "UNIQUE"
  | check _ _ => "CHECK"

def columns : Constraint → List String
  | primaryKey cs | foreignKey cs _ _ | unique cs | check cs _ => cs

def primaryKey? : Constraint → Option (List String)
  | primaryKey cs => some cs
  | _ => none

/-- The column of a uniqueness constraint over one column. -/
def uniqueColumn? : Constraint → Option String
  | unique [c] => some c
  | _ => none

end Constraint

/-- The column of a unique index over one column. -/
def Index.uniqueColumn? (index : Index) : Option String :=
  match index.unique, index.columns with
  | true, [c] => some c
  | _, _ => none

structure Table where
  schemaName : Option String := none
  name : String
  columns : List Column := []
  indexes : List Index := []
  constraints : List Constraint := []
  /-- The names of implied keys attached by analyses. -/
  attached : SortedSet String := .empty
  deriving DecidableEq, Inhabited

namespace Table

/-- The qualified name, `schema.name` or the bare name. -/
def fullName (t : Table) : String :=
  match t.schemaName with
  | some s => s ++ "." ++ t.name
  | none => t.name

def column? (t : Table) (name : String) : Option Column := t.columns.find? (·.name = name)

def hasColumn (t : Table) (name : String) : Bool := (t.column? name).isSome

/-- The columns of the first primary key. -/
def primaryKey? (t : Table) : Option (List String) := t.constraints.findSome? (·.primaryKey?)

def inPrimaryKey (t : Table) (column : String) : Bool :=
  t.constraints.any fun c => (c.primaryKey?.getD []).contains column

/-- The columns that are unique by themselves, in order of declaration, unique indexes before
uniqueness constraints. -/
def uniqueColumns (t : Table) : List String :=
  t.indexes.filterMap (·.uniqueColumn?) ++ t.constraints.filterMap (·.uniqueColumn?)

def ref (t : Table) (column : String) : ColumnRef := ⟨t.fullName, column⟩

theorem hasColumn_iff {t : Table} {name : String} :
    t.hasColumn name = true ↔ ∃ c ∈ t.columns, c.name = name := by
  simp [hasColumn, column?]

/-- A reading of the first primary key is one of the table's primary keys. -/
theorem mem_constraints_of_primaryKey? {t : Table} {key : List String}
    (h : t.primaryKey? = some key) : .primaryKey key ∈ t.constraints := by
  obtain ⟨c, hc, hk⟩ := List.exists_of_findSome?_eq_some h
  cases c with
  | primaryKey columns => cases hk; exact hc
  | foreignKey => cases hk
  | unique => cases hk
  | check => cases hk

theorem inPrimaryKey_iff {t : Table} {column : String} :
    t.inPrimaryKey column = true ↔ ∃ key, .primaryKey key ∈ t.constraints ∧ column ∈ key := by
  unfold inPrimaryKey
  rw [List.any_eq_true]
  constructor
  · intro hcolumn
    obtain ⟨c, hc, h⟩ := hcolumn
    cases c with
    | primaryKey key => exact ⟨key, hc, by simpa [Constraint.primaryKey?] using h⟩
    | foreignKey => simp [Constraint.primaryKey?] at h
    | unique => simp [Constraint.primaryKey?] at h
    | check => simp [Constraint.primaryKey?] at h
  · intro hkey
    obtain ⟨key, hk, hc⟩ := hkey
    exact ⟨.primaryKey key, hk, by simpa [Constraint.primaryKey?] using hc⟩

theorem mem_uniqueColumns {t : Table} {column : String} :
    column ∈ t.uniqueColumns ↔
      (∃ i ∈ t.indexes, i.unique = true ∧ i.columns = [column]) ∨ .unique [column] ∈ t.constraints := by
  have hindex (i : Index) :
      i.uniqueColumn? = some column ↔ i.unique = true ∧ i.columns = [column] := by
    unfold Index.uniqueColumn?
    split <;> simp_all
  have hconstraint (c : Constraint) : c.uniqueColumn? = some column ↔ c = .unique [column] := by
    unfold Constraint.uniqueColumn?
    split <;> simp_all
  simp [uniqueColumns, hindex, hconstraint]

end Table

end ImpliedKeys
