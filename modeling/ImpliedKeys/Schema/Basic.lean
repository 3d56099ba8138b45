import ImpliedKeys.Schema.Table

/-!
# Schemas

A schema stores its tables under names. Adding a table stores it under its qualified name; a schema
that is well keyed has every table so stored.
-/
namespace ImpliedKeys

structure Schema where
  version : String
  tables : NameMap Table := .empty
  deriving DecidableEq, Inhabited

namespace Schema

def table? (s : Schema) (key : String) : Option Table := s.tables.get? key

def hasTable (s : Schema) (key : String) : Bool := s.tables.contains key

def tableCount (s : Schema) : Nat := s.tables.size

/-- The schema with a table stored under its qualified name, in place of one that was there. -/
def addTable (s : Schema) (t : Table) : Schema :=
  { s with tables := s.tables.insert t.fullName t }

def removeTable (s : Schema) (key : String) : Schema :=
  { s with tables := s.tables.erase key }

def modifyTable (s : Schema) (key : String) (f : Table → Table) : Schema :=
  { s with tables := s.tables.modify key f }

/-- The schema with the name of an implied key attached to the table stored under a key. A table that
is not there is passed over. -/
def attach (s : Schema) (name key : String) : Schema :=
  s.modifyTable key fun t => { t with attached := t.attached.insert name }

/-- The name under which a foreign key's table is to be found: the written name if a table is
stored under it, else the qualified name of the first table of that name beside the referring
one. -/
def resolve? (s : Schema) (referring : Table) (written : String) : Option String :=
  if s.hasTable written then some written
  else
    (s.tables.values.find? fun t => t.schemaName = referring.schemaName ∧ t.name = written).map
      (·.fullName)

/-- A schema is known by its version and what its tables' names stand for. -/
theorem ext {s s' : Schema} (hversion : s.version = s'.version)
    (htable : ∀ key, s.table? key = s'.table? key) : s = s' := by
  have htables : s.tables = s'.tables := NameMap.ext htable
  cases s
  cases s'
  simp_all

theorem table?_eq_some_iff {s : Schema} {key : String} {t : Table} :
    s.table? key = some t ↔ (key, t) ∈ s.tables.entries := NameMap.get?_eq_some_iff

theorem hasTable_iff {s : Schema} {key : String} :
    s.hasTable key = true ↔ ∃ t, s.table? key = some t := NameMap.contains_iff

theorem table?_modifyTable (s : Schema) (changed : String) (f : Table → Table) (key : String) :
    (s.modifyTable changed f).table? key =
      (s.table? key).map fun t => if key = changed then f t else t := NameMap.get?_modify ..

/-- Every table is stored under its qualified name. -/
def WellKeyed (s : Schema) : Prop := ∀ e ∈ s.tables.entries, e.1 = e.2.fullName

instance (s : Schema) : Decidable s.WellKeyed :=
  inferInstanceAs (Decidable (∀ e ∈ s.tables.entries, e.1 = e.2.fullName))

theorem WellKeyed.fullName_eq {s : Schema} (hkeyed : s.WellKeyed) {key : String} {t : Table}
    (ht : s.table? key = some t) : t.fullName = key :=
  (hkeyed _ (table?_eq_some_iff.mp ht)).symm

end Schema

end ImpliedKeys
