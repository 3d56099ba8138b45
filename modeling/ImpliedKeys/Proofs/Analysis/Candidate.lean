import ImpliedKeys.Analysis.Candidate
import ImpliedKeys.Proofs.Schema.Soundness

/-!
# Candidates, declared keys and admissible pairs

What may be a parent, what is declared and what is admissible are said here of the schema itself,
without lists of candidates and declared pairs. The selection and the checks of an analysis decide
exactly these.
-/
namespace ImpliedKeys

theorem nodup_eraseDups {α : Type} [BEq α] [LawfulBEq α] (l : List α) : l.eraseDups.Nodup := by
  match l with
  | [] => exact List.nodup_nil
  | a :: l =>
    rw [List.eraseDups_cons, List.nodup_cons]
    exact ⟨by simp [List.mem_eraseDups], nodup_eraseDups (l.filter fun b => !b == a)⟩
termination_by l.length
decreasing_by exact Nat.lt_succ_of_le (List.length_filter_le _ _)

/-- A column that others may refer to: it is in the first primary key, or it is unique by itself and
the settings let that count. -/
def Table.MayBeParent (config : Config) (t : Table) (column : String) : Prop :=
  (∃ key, t.primaryKey? = some key ∧ column ∈ key) ∨
    config.useUniqueKeys = true ∧
      ((∃ i ∈ t.indexes, i.unique = true ∧ i.columns = [column]) ∨ .unique [column] ∈ t.constraints)

theorem Table.mem_map_ref {t : Table} {columns : List String} {r : ColumnRef} :
    r ∈ columns.map t.ref ↔ r.table = t.fullName ∧ r.column ∈ columns := by
  rw [List.mem_map]
  constructor
  · intro hlisted
    obtain ⟨c, hc, rfl⟩ := hlisted
    exact ⟨rfl, hc⟩
  · intro hcolumn
    exact ⟨r.column, hcolumn.2, by rw [ref, ← hcolumn.1]⟩

theorem mem_candidates {config : Config} {t : Table} {r : ColumnRef} :
    r ∈ candidates config.useUniqueKeys t ↔
      r.table = t.fullName ∧ t.MayBeParent config r.column := by
  have hkey : r.column ∈ t.primaryKey?.getD [] ↔ ∃ key, t.primaryKey? = some key ∧ r.column ∈ key := by
    cases t.primaryKey? <;> simp
  have hunique : r.column ∈ (if config.useUniqueKeys then t.uniqueColumns else []) ↔
      config.useUniqueKeys = true ∧ r.column ∈ t.uniqueColumns := by
    cases config.useUniqueKeys <;> simp
  have hcolumn : r.column ∈ (t.primaryKey?.getD [] ++
      if config.useUniqueKeys then t.uniqueColumns else []).eraseDups ↔
        t.MayBeParent config r.column := by
    rw [List.mem_eraseDups, List.mem_append, hkey, hunique, Table.mem_uniqueColumns]
    exact Iff.rfl
  rw [candidates, Table.mem_map_ref, hcolumn]

theorem nodup_candidates (useUniqueKeys : Bool) (t : Table) : (candidates useUniqueKeys t).Nodup := by
  rw [candidates]
  refine List.pairwise_map.mpr ((nodup_eraseDups _).imp fun hne he => hne ?_)
  exact congrArg ColumnRef.column he

/-- In a schema without a defect a column that may be a parent exists. -/
theorem Table.MayBeParent.hasColumn {config : Config} {s : Schema} {key : String} {t : Table}
    {column : String} (h : t.MayBeParent config column) (hs : s.defect? = none)
    (ht : s.table? key = some t) : t.hasColumn column = true := by
  rcases h with ⟨columns, hk, hc⟩ | ⟨-, hu⟩
  · exact Schema.hasColumn_of_constraint hs ht (Table.mem_constraints_of_primaryKey? hk) hc
  · exact Schema.hasColumn_of_unique hs ht (Table.mem_uniqueColumns.mpr hu)

namespace Schema

/-- The first column of a name in the table stored under a name. -/
def column? (s : Schema) (r : ColumnRef) : Option Column :=
  (s.table? r.table).bind (·.column? r.column)

/-- A foreign key of the child's table has the child and the parent at one place. -/
def Declares (s : Schema) (parent child : ColumnRef) : Prop :=
  ∃ t columns written referenced, s.table? child.table = some t ∧
    .foreignKey columns written referenced ∈ t.constraints ∧
    s.resolve? t written = some parent.table ∧
    ∃ i : Nat, columns[i]? = some child.column ∧ referenced[i]? = some parent.column

/-- Both columns exist and their types are comparable. -/
def Comparable (s : Schema) (parent child : ColumnRef) : Prop :=
  ∃ a b, s.column? parent = some a ∧ s.column? child = some b ∧ a.type.comparable b.type = true

end Schema

theorem pair_mem_zip_iff {l m : List String} {a b : String} :
    (a, b) ∈ l.zip m ↔ ∃ i : Nat, l[i]? = some a ∧ m[i]? = some b := by
  simp only [List.mem_iff_getElem?, List.getElem?_zip_eq_some]

namespace DeclaredKeys

theorem mem_ofConstraint {s : Schema} {key : String} {t : Table} {constraint : Constraint}
    {parent child : ColumnRef} :
    (parent, child) ∈ ofConstraint s key t constraint ↔
      ∃ columns written referenced, constraint = .foreignKey columns written referenced ∧
        child.table = key ∧ s.resolve? t written = some parent.table ∧
        ∃ i : Nat, columns[i]? = some child.column ∧ referenced[i]? = some parent.column := by
  cases constraint with
  | primaryKey => simp [ofConstraint]
  | unique => simp [ofConstraint]
  | check => simp [ofConstraint]
  | foreignKey columns written referenced =>
    cases hr : s.resolve? t written with
    | none => simp [ofConstraint, hr]
    | some found =>
      simp only [ofConstraint, hr, List.mem_map, Prod.exists, pair_mem_zip_iff,
        Prod.mk.injEq]
      constructor
      · intro hlisted
        obtain ⟨c, p, hi, rfl, rfl⟩ := hlisted
        exact ⟨columns, written, referenced, rfl, rfl, hr, hi⟩
      · intro hdeclared
        obtain ⟨_, _, _, he, rfl, hparent, hi⟩ := hdeclared
        cases he
        rw [hr] at hparent
        cases hparent
        exact ⟨child.column, parent.column, hi, rfl, rfl⟩

/-- The declared pairs are the pairs that foreign keys have at one place. -/
theorem mem_pairs {s : Schema} {parent child : ColumnRef} :
    (parent, child) ∈ (ofSchema s).pairs ↔ s.Declares parent child := by
  simp only [ofSchema, List.mem_eraseDups, List.mem_flatMap, mem_ofConstraint]
  constructor
  · intro hlisted
    obtain ⟨⟨key, t⟩, he, _, hk, columns, written, referenced, rfl, rfl, hr, hi⟩ := hlisted
    exact ⟨t, columns, written, referenced, Schema.table?_eq_some_iff.mpr he, hk, hr, hi⟩
  · intro hdeclared
    obtain ⟨t, columns, written, referenced, ht, hk, hr, hi⟩ := hdeclared
    exact ⟨(child.table, t), Schema.table?_eq_some_iff.mp ht, _, hk, columns, written, referenced,
      rfl, rfl, hr, hi⟩

theorem connects_iff {s : Schema} {a b : ColumnRef} :
    (ofSchema s).connects a b = true ↔ s.Declares a b ∨ s.Declares b a := by
  simp [connects, mem_pairs]

end DeclaredKeys

/-- What makes a pair admissible. -/
structure Admissible (config : Config) (s : Schema) (parent child : ColumnRef) : Prop where
  distinct : parent ≠ child
  undeclared : ¬ s.Declares parent child
  unreversed : ¬ s.Declares child parent
  apart : config.allowSelfAssociations = false → parent.table ≠ child.table
  parentStored : s.hasTable parent.table = true
  childStored : s.hasTable child.table = true
  comparable : config.checkColumnTypes = true → s.Comparable parent child

theorem typesComparable_iff {s : Schema} {parent child : ColumnRef} {p c : Table}
    (hp : s.table? parent.table = some p) (hc : s.table? child.table = some c) :
    typesComparable p parent.column c child.column = true ↔ s.Comparable parent child := by
  unfold typesComparable Schema.Comparable Schema.column?
  rw [hp, hc, Option.bind_some, Option.bind_some]
  cases p.column? parent.column with
  | none => simp
  | some a => cases c.column? child.column <;> simp

theorem admissible_iff {config : Config} {s : Schema} {parent child : ColumnRef} :
    admissible config s (.ofSchema s) parent child = true ↔ Admissible config s parent child := by
  unfold admissible
  simp only [Bool.and_eq_true, decide_eq_true_eq, Bool.not_eq_true', Bool.or_eq_true]
  rw [← Bool.not_eq_true, DeclaredKeys.connects_iff, not_or]
  constructor
  · intro hchecks
    obtain ⟨⟨⟨hne, hd, hr⟩, hself⟩, hlast⟩ := hchecks
    cases hp : s.table? parent.table with
    | none => rw [hp] at hlast; simp at hlast
    | some p =>
      cases hc : s.table? child.table with
      | none => rw [hp, hc] at hlast; simp at hlast
      | some c =>
        simp only [hp, hc, Bool.or_eq_true, typesComparable_iff hp hc] at hlast
        refine ⟨hne, hd, hr, fun ha => ?_, Schema.hasTable_iff.mpr ⟨p, hp⟩,
          Schema.hasTable_iff.mpr ⟨c, hc⟩, fun ht => ?_⟩
        · exact hself.resolve_left (by simp [ha])
        · exact hlast.resolve_left (by simp [ht])
  · intro h
    obtain ⟨p, hp⟩ := Schema.hasTable_iff.mp h.parentStored
    obtain ⟨c, hc⟩ := Schema.hasTable_iff.mp h.childStored
    refine ⟨⟨⟨h.distinct, h.undeclared, h.unreversed⟩, ?_⟩, ?_⟩
    · cases ha : config.allowSelfAssociations with
      | true => exact .inl rfl
      | false => exact .inr (h.apart ha)
    · simp only [hp, hc, Bool.or_eq_true, typesComparable_iff hp hc]
      cases ht : config.checkColumnTypes with
      | true => exact .inr (h.comparable ht)
      | false => exact .inl rfl

end ImpliedKeys
