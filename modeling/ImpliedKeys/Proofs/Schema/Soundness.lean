import ImpliedKeys.Analysis.Defect

/-!
# Schemas without a defect

No defect is found in a schema exactly if its tables have every column that their indexes and
constraints name and every foreign key refers to columns of a table, as many as it has itself.
-/
namespace ImpliedKeys

theorem Table.firstMissing?_eq_none_iff {t : Table} {columns : List String} :
    t.firstMissing? columns = none ↔ ∀ c ∈ columns, t.hasColumn c = true := by
  simp [firstMissing?]

namespace Schema

variable {s s' : Schema} {key : String} {t u : Table}

theorem referenceDefect?_eq_none_iff {columns others : List String} {written : String} :
    s.referenceDefect? key t columns written others = none ↔ columns.length = others.length ∧
      ∃ parent, s.referenced? t written = some parent ∧
        ∀ c ∈ others, parent.hasColumn c = true := by
  unfold referenceDefect?
  by_cases hlength : columns.length = others.length
  · rw [if_neg (not_not_intro hlength)]
    cases hparent : s.referenced? t written with
    | none => simp
    | some parent => simp [hlength, Table.firstMissing?_eq_none_iff]
  · rw [if_pos hlength]
    simp [hlength]

/-- The columns that a constraint names are there, and so is what a foreign key refers to. -/
structure Supports (s : Schema) (t : Table) (constraint : Constraint) : Prop where
  own : ∀ c ∈ constraint.columns, t.hasColumn c = true
  referenced : ∀ columns written others, constraint = .foreignKey columns written others →
    columns.length = others.length ∧
      ∃ parent, s.referenced? t written = some parent ∧ ∀ c ∈ others, parent.hasColumn c = true

/-- A constraint is supported also by a table with at least the columns, if the tables that it
refers to have at least theirs. -/
theorem Supports.mono {constraint : Constraint} (h : s.Supports t constraint)
    (hown : ∀ n, t.hasColumn n = true → u.hasColumn n = true)
    (hreferenced : ∀ columns written others, constraint = .foreignKey columns written others →
      ∀ parent, s.referenced? t written = some parent → ∃ other,
        s'.referenced? u written = some other ∧
          ∀ n, parent.hasColumn n = true → other.hasColumn n = true) :
    s'.Supports u constraint where
  own n hn := hown n (h.own n hn)
  referenced columns written others hc := by
    obtain ⟨hlength, parent, hparent, hcolumns⟩ := h.referenced columns written others hc
    obtain ⟨other, hother, hmore⟩ := hreferenced columns written others hc parent hparent
    exact ⟨hlength, other, hother, fun n hn => hmore n (hcolumns n hn)⟩

theorem constraintDefect?_eq_none_iff {constraint : Constraint} :
    s.constraintDefect? key t constraint = none ↔ s.Supports t constraint := by
  have hiff : s.Supports t constraint ↔ t.firstMissing? constraint.columns = none ∧
      ∀ columns written others, constraint = .foreignKey columns written others →
        s.referenceDefect? key t columns written others = none := by
    simp only [Table.firstMissing?_eq_none_iff, referenceDefect?_eq_none_iff]
    exact ⟨fun h => ⟨h.own, h.referenced⟩, fun h => ⟨h.1, h.2⟩⟩
  rw [hiff]
  unfold constraintDefect?
  cases t.firstMissing? constraint.columns with
  | some column => simp
  | none => cases constraint <;> simp

theorem defect?_eq_none_iff : s.defect? = none ↔ ∀ key t, s.table? key = some t →
    (∀ i ∈ t.indexes, ∀ c ∈ i.columns, t.hasColumn c = true) ∧
      ∀ constraint ∈ t.constraints, s.Supports t constraint := by
  have htable (key : String) (t : Table) : s.tableDefect? key t = none ↔
      (∀ i ∈ t.indexes, ∀ c ∈ i.columns, t.hasColumn c = true) ∧
        ∀ constraint ∈ t.constraints, s.Supports t constraint := by
    simp only [tableDefect?, Option.or_eq_none_iff, List.findSome?_eq_none_iff,
      Table.indexDefect?, Option.map_eq_none_iff, Table.firstMissing?_eq_none_iff,
      constraintDefect?_eq_none_iff]
  simp only [defect?, List.findSome?_eq_none_iff, Prod.forall, htable, table?_eq_some_iff]

theorem hasColumn_of_index (hs : s.defect? = none) (ht : s.table? key = some t) {i : Index}
    (hi : i ∈ t.indexes) {c : String} (hc : c ∈ i.columns) : t.hasColumn c = true :=
  (defect?_eq_none_iff.mp hs key t ht).1 i hi c hc

theorem supports (hs : s.defect? = none) (ht : s.table? key = some t)
    {constraint : Constraint} (hk : constraint ∈ t.constraints) : s.Supports t constraint :=
  (defect?_eq_none_iff.mp hs key t ht).2 constraint hk

theorem hasColumn_of_constraint (hs : s.defect? = none) (ht : s.table? key = some t)
    {constraint : Constraint} (hk : constraint ∈ t.constraints) {c : String}
    (hc : c ∈ constraint.columns) : t.hasColumn c = true :=
  (supports hs ht hk).own c hc

/-- The primary keys and the unique columns of a table are among its columns. -/
theorem hasColumn_of_unique (hs : s.defect? = none) (ht : s.table? key = some t) {c : String}
    (hc : c ∈ t.uniqueColumns) : t.hasColumn c = true := by
  rcases Table.mem_uniqueColumns.mp hc with ⟨i, hi, -, hcolumns⟩ | hk
  · exact hasColumn_of_index hs ht hi (by simp [hcolumns])
  · exact hasColumn_of_constraint hs ht hk (by simp [Constraint.columns])

end Schema

end ImpliedKeys
