import ImpliedKeys.Proofs.Schema.Resolution

/-!
# What indexes and constraints demand

Each column that an index or a constraint names makes a demand on the schema, and so do the counts
and the table of a foreign key. The demands stand in one order: by the keys of the tables, in a table
the indexes before the constraints, and for a foreign key its own columns, the counts, the table and
the columns there. The defect of a well-keyed schema is that of the first demand that is not met.
-/
namespace ImpliedKeys

universe u v w

/-- The first value over lists that are joined is found list by list. -/
theorem findSome?_flatMap {α : Type u} {β : Type v} {γ : Type w} (f : α → List β)
    (g : β → Option γ) (l : List α) :
    (l.flatMap f).findSome? g = l.findSome? fun a => (f a).findSome? g := by
  induction l with
  | nil => rfl
  | cons a l ih =>
    rw [List.flatMap_cons, List.findSome?_append, ih, List.findSome?_cons]
    cases (f a).findSome? g <;> rfl

/-- What is demanded of a schema at one place. -/
inductive Demand where
  /-- A table has a column that one of its indexes or constraints names. -/
  | ownColumn (source key : String) (t : Table) (column : String)
  /-- A foreign key refers to as many columns as it has. -/
  | counts (key : String) (columns others : List String)
  /-- The table to which a foreign key refers is there. -/
  | table (key : String) (t : Table) (written : String)
  /-- That table has a column to which the foreign key refers. -/
  | otherColumn (t : Table) (written column : String)

def Index.demands (key : String) (t : Table) (i : Index) : List Demand :=
  i.columns.map (.ownColumn ("index '" ++ i.name ++ "'") key t)

def Constraint.demands (key : String) (t : Table) (c : Constraint) : List Demand :=
  c.columns.map (.ownColumn c.kind key t) ++
    match c with
    | foreignKey columns written others =>
      .counts key columns others :: .table key t written :: others.map (.otherColumn t written)
    | _ => []

def Table.demands (key : String) (t : Table) : List Demand :=
  t.indexes.flatMap (·.demands key t) ++ t.constraints.flatMap (·.demands key t)

namespace Schema

variable {s : Schema} {key written : String} {t parent : Table} {demand : Demand} {d : Defect}

def demands (s : Schema) : List Demand := s.tables.entries.flatMap fun e => e.2.demands e.1

/-- The table that a name means in another table: the one that is stored under it, or else the one
that is called so in the same namespace. -/
def Means (s : Schema) (t : Table) (written : String) (parent : Table) : Prop :=
  s.table? written = some parent ∨ s.hasTable written = false ∧
    ∃ key, s.table? key = some parent ∧ parent.schemaName = t.schemaName ∧ parent.name = written

theorem WellKeyed.referenced?_eq_some_iff (hkeyed : s.WellKeyed) :
    s.referenced? t written = some parent ↔ s.Means t written parent := by
  unfold referenced? Means
  simp only [Option.bind_eq_some_iff, hkeyed.resolve?_eq_some_iff]
  constructor
  · intro hresolved
    obtain ⟨key, ⟨-, rfl⟩ | ⟨hmissing, v, hv, hnames⟩, hparent⟩ := hresolved
    · exact .inl hparent
    · rw [hparent] at hv
      cases hv
      exact .inr ⟨hmissing, key, hparent, hnames⟩
  · intro hmeans
    rcases hmeans with hstored | ⟨hmissing, key, hparent, hnames⟩
    · exact ⟨written, .inl ⟨hasTable_iff.mpr ⟨parent, hstored⟩, rfl⟩, hstored⟩
    · exact ⟨key, .inr ⟨hmissing, parent, hparent, hnames⟩, hparent⟩

/-- The table that a name means is stored under its qualified name. -/
theorem WellKeyed.table?_of_means (hkeyed : s.WellKeyed) (h : s.Means t written parent) :
    s.table? parent.fullName = some parent := by
  rcases h with hstored | ⟨-, key, hstored, -⟩ <;> exact hkeyed.table?_fullName hstored

end Schema

namespace Demand

variable {s : Schema} {key : String} {t : Table} {demand : Demand} {d : Defect}

/-- A demand is not met, and a defect says so. -/
def Raises (s : Schema) : Demand → Defect → Prop
  | ownColumn source key t column, d =>
    t.hasColumn column = false ∧ d = .missingColumn source key column
  | counts key columns others, d =>
    columns.length ≠ others.length ∧
      d = .columnCounts columns.length others.length (some { table := some key })
  | table key t written, d =>
    (∀ parent, ¬ s.Means t written parent) ∧ d = .unknownTable written (some { table := some key })
  | otherColumn t written column, d =>
    ∃ parent, s.Means t written parent ∧ parent.hasColumn column = false ∧
      d = .missingReferenced parent column

/-- The defect of a demand that is not met. The columns of a table that is not there are passed
over. -/
def defect? (s : Schema) : Demand → Option Defect
  | ownColumn source key t column =>
    if t.hasColumn column then none else some (.missingColumn source key column)
  | counts key columns others =>
    if columns.length ≠ others.length then
      some (.columnCounts columns.length others.length (some { table := some key }))
    else none
  | table key t written =>
    match s.referenced? t written with
    | none => some (.unknownTable written (some { table := some key }))
    | some _ => none
  | otherColumn t written column =>
    (s.referenced? t written).bind fun parent =>
      if parent.hasColumn column then none else some (.missingReferenced parent column)

theorem defect?_eq_some_iff (hkeyed : s.WellKeyed) :
    demand.defect? s = some d ↔ demand.Raises s d := by
  cases demand with
  | ownColumn source key t column =>
    unfold defect? Raises
    by_cases h : t.hasColumn column = true <;> simp [h, eq_comm]
  | counts key columns others =>
    unfold defect? Raises
    by_cases h : columns.length = others.length <;> simp [h, eq_comm]
  | table key t written =>
    unfold defect? Raises
    simp only [← hkeyed.referenced?_eq_some_iff]
    cases s.referenced? t written <;> simp [eq_comm]
  | otherColumn t written column =>
    unfold defect? Raises
    simp only [← hkeyed.referenced?_eq_some_iff, Option.bind_eq_some_iff]
    refine exists_congr fun parent => and_congr_right fun _ => ?_
    by_cases h : parent.hasColumn column = true <;> simp [h, eq_comm]

/-- Of the columns of one place the first missing one counts. -/
theorem findSome?_missing (t : Table) (f : String → Defect) (columns : List String) :
    (columns.findSome? fun c => if t.hasColumn c then none else some (f c)) =
      (t.firstMissing? columns).map f := by
  induction columns with
  | nil => rfl
  | cons c columns ih =>
    have ih' := ih
    unfold Table.firstMissing? at ih' ⊢
    rw [List.findSome?_cons, List.find?_cons, ih']
    cases t.hasColumn c <;> rfl

theorem findSome?_demands_index (s : Schema) (key : String) (t : Table) (i : Index) :
    (i.demands key t).findSome? (defect? s) = t.indexDefect? key i := by
  rw [Index.demands, List.findSome?_map]
  exact findSome?_missing t _ i.columns

/-- The counts come before the table, and the table before its columns. -/
theorem findSome?_reference (s : Schema) (key : String) (t : Table) (columns : List String)
    (written : String) (others : List String) :
    (counts key columns others :: table key t written ::
        others.map (otherColumn t written)).findSome? (defect? s) =
      s.referenceDefect? key t columns written others := by
  rw [List.findSome?_cons, List.findSome?_cons, List.findSome?_map]
  unfold Schema.referenceDefect?
  by_cases hcounts : columns.length = others.length
  · cases hparent : s.referenced? t written with
    | none => simp [defect?, hcounts, hparent]
    | some parent =>
      have hcolumns : defect? s ∘ otherColumn t written = fun c =>
          if parent.hasColumn c then none else some (.missingReferenced parent c) := by
        funext c
        simp [defect?, hparent]
      simp [defect?, hcounts, hparent, hcolumns, findSome?_missing]
  · simp [defect?, hcounts]

theorem findSome?_demands_constraint (s : Schema) (key : String) (t : Table) (c : Constraint) :
    (c.demands key t).findSome? (defect? s) = s.constraintDefect? key t c := by
  have hown : (c.columns.map (ownColumn c.kind key t)).findSome? (defect? s) =
      (t.firstMissing? c.columns).map (.missingColumn c.kind key) := by
    rw [List.findSome?_map]
    exact findSome?_missing t _ c.columns
  unfold Constraint.demands Schema.constraintDefect?
  rw [List.findSome?_append, hown]
  cases t.firstMissing? c.columns with
  | some column => rfl
  | none =>
    cases c with
    | primaryKey | unique | check => rfl
    | foreignKey columns written others => exact findSome?_reference s key t columns written others

end Demand

namespace Schema

variable {s : Schema} {key : String} {t : Table} {demand : Demand} {d : Defect}

/-- The check finds the defect of the first demand that has one. -/
theorem defect?_eq_findSome? (s : Schema) : s.defect? = s.demands.findSome? (Demand.defect? s) := by
  unfold defect? demands tableDefect?
  simp only [findSome?_flatMap, Table.demands, List.findSome?_append,
    Demand.findSome?_demands_index, Demand.findSome?_demands_constraint]

/-- A defect is that of the first demand that is not met. -/
def FirstUnmet (s : Schema) (d : Defect) : Prop :=
  ∃ before demand after, s.demands = before ++ demand :: after ∧ demand.Raises s d ∧
    ∀ earlier ∈ before, ∀ e, ¬ earlier.Raises s e

theorem WellKeyed.defect?_eq_some_iff (hkeyed : s.WellKeyed) :
    s.defect? = some d ↔ s.FirstUnmet d := by
  unfold FirstUnmet
  simp only [defect?_eq_findSome?, List.findSome?_eq_some_iff, Option.eq_none_iff_forall_ne_some,
    ne_eq, Demand.defect?_eq_some_iff hkeyed]

theorem mem_demands_table : demand ∈ t.demands key ↔
    (∃ i ∈ t.indexes, ∃ c ∈ i.columns, .ownColumn ("index '" ++ i.name ++ "'") key t c = demand) ∨
    ∃ k ∈ t.constraints, (∃ c ∈ k.columns, .ownColumn k.kind key t c = demand) ∨
      ∃ columns written others, k = .foreignKey columns written others ∧
        (demand = .counts key columns others ∨ demand = .table key t written ∨
          ∃ c ∈ others, .otherColumn t written c = demand) := by
  simp only [Table.demands, List.mem_append, List.mem_flatMap, Index.demands, Constraint.demands,
    List.mem_map]
  refine or_congr_right (exists_congr fun k => and_congr_right fun _ => or_congr_right ?_)
  cases k with
  | primaryKey | unique | check => simp
  | foreignKey columns written others =>
    simp only [List.mem_cons, List.mem_map]
    constructor
    · intro hplace
      exact ⟨columns, written, others, rfl, hplace⟩
    · intro hkey
      obtain ⟨_, _, _, he, hplace⟩ := hkey
      cases he
      exact hplace

/-- What a defect says of a schema is so: the column is missing in a table that is there, the table
is not there though a foreign key refers to it, or the counts are those of a foreign key and
differ. -/
def Exhibits (s : Schema) : Defect → Prop
  | .unknownColumn _ _ location => ∃ key t column, s.table? key = some t ∧
    t.hasColumn column = false ∧ location = some { table := some key, column := some column }
  | .unknownTable written location => ∃ key t columns others, s.table? key = some t ∧
    .foreignKey columns written others ∈ t.constraints ∧ (∀ parent, ¬ s.Means t written parent) ∧
    location = some { table := some key }
  | .columnCounts own referenced location => ∃ key t columns written others,
    s.table? key = some t ∧ .foreignKey columns written others ∈ t.constraints ∧
    columns.length = own ∧ others.length = referenced ∧ own ≠ referenced ∧
    location = some { table := some key }

theorem WellKeyed.exhibits_of_raises (hkeyed : s.WellKeyed) (ht : s.table? key = some t)
    (hdemand : demand ∈ t.demands key) (h : demand.Raises s d) : s.Exhibits d := by
  rcases mem_demands_table.mp hdemand with ⟨i, -, c, -, rfl⟩ | ⟨k, hk, ⟨c, -, rfl⟩ |
    ⟨columns, written, others, rfl, rfl | rfl | ⟨c, -, rfl⟩⟩⟩
  · obtain ⟨hmissing, rfl⟩ := h
    exact ⟨key, t, c, ht, hmissing, rfl⟩
  · obtain ⟨hmissing, rfl⟩ := h
    exact ⟨key, t, c, ht, hmissing, rfl⟩
  · obtain ⟨hcounts, rfl⟩ := h
    exact ⟨key, t, columns, written, others, ht, hk, rfl, rfl, hcounts, rfl⟩
  · obtain ⟨hmissing, rfl⟩ := h
    exact ⟨key, t, columns, others, ht, hk, hmissing, rfl⟩
  · obtain ⟨parent, hparent, hmissing, rfl⟩ := h
    exact ⟨parent.fullName, parent, c, hkeyed.table?_of_means hparent, hmissing, rfl⟩

theorem FirstUnmet.exhibits (hkeyed : s.WellKeyed) (h : s.FirstUnmet d) : s.Exhibits d := by
  obtain ⟨before, demand, after, hdemands, hraises, -⟩ := h
  have hmem : demand ∈ s.demands := by simp [hdemands]
  obtain ⟨e, he, hdemand⟩ := List.mem_flatMap.mp hmem
  exact hkeyed.exhibits_of_raises (table?_eq_some_iff.mpr he) hdemand hraises

end Schema

end ImpliedKeys
