import ImpliedKeys.Proofs.Analysis.Declaration
import ImpliedKeys.Proofs.Schema.Comparability

/-!
# Validation is blind to direction

Each check of a pair of columns gives one answer for the pair and for its reverse: whether they are
one column, whether they are declared to be connected, whether they are in one table, whether their
tables are stored, and whether their types are comparable. So the whole validation does, for columns
that exist and for others, and with any set of declared pairs.
-/
namespace ImpliedKeys

namespace ColumnType

theorem comparable_trans {l m r : ColumnType} (hlm : l.comparable m = true)
    (hmr : m.comparable r = true) : l.comparable r = true :=
  comparable_iff.mpr ((comparable_iff.mp hlm).trans (comparable_iff.mp hmr))

theorem comparable_equivalence : Equivalence fun l r : ColumnType => l.comparable r = true :=
  ⟨comparable_refl, comparable_symm, comparable_trans⟩

theorem comparable_comm (l r : ColumnType) : l.comparable r = r.comparable l :=
  Bool.eq_iff_iff.mpr ⟨comparable_symm, comparable_symm⟩

end ColumnType

/-- Two columns are found and compared alike from either side. -/
theorem typesComparable_comm (t u : Table) (column other : String) :
    typesComparable t column u other = typesComparable u other t column := by
  unfold typesComparable
  cases t.column? column with
  | none => cases u.column? other <;> rfl
  | some a =>
    cases u.column? other with
    | none => rfl
    | some b => exact ColumnType.comparable_comm a.type b.type

theorem admissible_comm (config : Config) (s : Schema) (declared : DeclaredKeys)
    (a b : ColumnRef) : admissible config s declared a b = admissible config s declared b a := by
  have hdistinct : (a ≠ b) = (b ≠ a) := propext ne_comm
  have happart : (a.table ≠ b.table) = (b.table ≠ a.table) := propext ne_comm
  unfold admissible
  simp only [hdistinct, declared.connects_comm a b, happart]
  cases s.table? a.table with
  | none => cases s.table? b.table <;> rfl
  | some t =>
    cases s.table? b.table with
    | none => rfl
    | some u => simp only [typesComparable_comm t u]

/-- Comparability is an equivalence on the column types, enumerations and database-specific types
included, and validation gives a pair of columns and its reverse one answer. -/
theorem validation_blind_to_direction :
    (Equivalence fun l r : ColumnType => l.comparable r = true) ∧
    ∀ (config : Config) (s : Schema) (declared : DeclaredKeys) (a b : ColumnRef),
      admissible config s declared a b = admissible config s declared b a :=
  ⟨ColumnType.comparable_equivalence, admissible_comm⟩

/-- Types of one database are comparable whatever the case of their names, and never with a built-in
type. -/
example : (ColumnType.dialect "SERIAL" []).comparable (.dialect "serial" [("size", .int 8)]) = true ∧
    (ColumnType.dialect "INTEGER" []).comparable (.integer none) = false := by decide +kernel

end ImpliedKeys
