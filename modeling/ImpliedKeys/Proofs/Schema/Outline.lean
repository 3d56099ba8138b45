import ImpliedKeys.Analysis.Index

/-!
# What is looked up by name

Foreign keys are resolved, and shared leading words are found, by the names of the tables alone.
Schemas that list the same names under the same keys agree on all of it, whatever is in the tables.
-/
namespace ImpliedKeys

open Identifier (Word)

theorem Table.fullName_congr {t u : Table} (hschema : t.schemaName = u.schemaName)
    (hname : t.name = u.name) : t.fullName = u.fullName := by
  unfold fullName
  rw [hschema, hname]

namespace Schema

variable {s s' : Schema} {key : String} {t u : Table}

/-- The keys of the tables, in order, with what each table is called. -/
def outline (s : Schema) : List (String × Option String × String) :=
  s.tables.entries.map fun e => (e.1, e.2.schemaName, e.2.name)

theorem lookup_outline (s : Schema) (key : String) :
    s.outline.lookup key = (s.table? key).map fun t => (t.schemaName, t.name) :=
  lookup_map_value (fun _ (t : Table) => (t.schemaName, t.name)) s.tables.entries key

theorem table?_addTable :
    (s.addTable t).table? key = if key = t.fullName then some t else s.table? key :=
  NameMap.get?_insert ..

/-- A table of a new name joins the others. -/
theorem entries_addTable_perm (hnew : s.hasTable t.fullName = false) :
    (s.addTable t).tables.entries.Perm ((t.fullName, t) :: s.tables.entries) := by
  refine NameMap.insertEntry_perm fun hmem => ?_
  have hstored : s.hasTable t.fullName = true :=
    hasTable_iff.mpr (NameMap.mem_keys_iff.mp hmem)
  rw [hnew] at hstored
  cases hstored

theorem outline_addTable : (s.addTable t).outline =
    NameMap.insertEntry t.fullName (t.schemaName, t.name) s.outline :=
  NameMap.map_insertEntry (fun t : Table => (t.schemaName, t.name)) t.fullName t s.tables.entries

/-- Changes to a table that leave what it is called leave the outline. -/
theorem outline_modifyTable {f : Table → Table}
    (h : ∀ t, (f t).schemaName = t.schemaName ∧ (f t).name = t.name) :
    (s.modifyTable key f).outline = s.outline := by
  have hentries : (s.modifyTable key f).tables.entries =
      s.tables.entries.map fun e => (e.1, if e.1 = key then f e.2 else e.2) := rfl
  unfold outline
  rw [hentries, List.map_map]
  refine List.map_congr_left fun e _ => ?_
  by_cases hkey : e.1 = key <;> simp [hkey, h]

/-- A table has one in its place that is called the same. -/
theorem table?_of_outline_eq (h : s.outline = s'.outline) (ht : s.table? key = some t) :
    ∃ u, s'.table? key = some u ∧ t.schemaName = u.schemaName ∧ t.name = u.name := by
  have hlookup := s'.lookup_outline key
  rw [← h, lookup_outline, ht, Option.map_some] at hlookup
  obtain ⟨u, hu, hnames⟩ := Option.map_eq_some_iff.mp hlookup.symm
  obtain ⟨hschema, hname⟩ := Prod.mk.inj hnames
  exact ⟨u, hu, hschema.symm, hname.symm⟩

theorem hasTable_eq_of_outline_eq (h : s.outline = s'.outline) (key : String) :
    s.hasTable key = s'.hasTable key := by
  have hsome (r : Schema) : r.hasTable key = (r.outline.lookup key).isSome := by
    rw [lookup_outline, Option.isSome_map]
    rfl
  rw [hsome, hsome, h]

theorem tableCount_eq_of_outline_eq (h : s.outline = s'.outline) :
    s.tableCount = s'.tableCount := by
  have hlength := congrArg List.length h
  unfold outline at hlength
  rwa [List.length_map, List.length_map] at hlength

theorem resolve?_of_hasTable {written : String} (h : s.hasTable written = true) :
    s.resolve? t written = some written := by
  rw [resolve?, if_pos h]

/-- A foreign key's table is found in the outline. -/
theorem resolve?_eq (s : Schema) (t : Table) (written : String) :
    s.resolve? t written =
      if s.hasTable written then some written
      else (s.outline.find? fun e => e.2.1 = t.schemaName ∧ e.2.2 = written).map
        fun e => ({ schemaName := e.2.1, name := e.2.2 } : Table).fullName := by
  unfold resolve? outline NameMap.values
  rw [List.find?_map, List.find?_map, Option.map_map, Option.map_map]
  rfl

theorem resolve?_of_outline_eq (h : s.outline = s'.outline)
    (hschema : t.schemaName = u.schemaName) (written : String) :
    s.resolve? t written = s'.resolve? u written := by
  rw [resolve?_eq, resolve?_eq, hasTable_eq_of_outline_eq h, h, hschema]

theorem sharedLeads_of_outline_eq (h : s.outline = s'.outline) (limit : Nat) :
    sharedLeads s limit = sharedLeads s' limit := by
  have hoccurrences (r : Schema) : leadOccurrences r =
      r.outline.flatMap fun e => leadingParts (Identifier.words e.2.2) := by
    unfold leadOccurrences outline NameMap.values
    rw [List.flatMap_map, List.flatMap_map]
  unfold sharedLeads
  rw [hoccurrences s, hoccurrences s', h]

end Schema

end ImpliedKeys
