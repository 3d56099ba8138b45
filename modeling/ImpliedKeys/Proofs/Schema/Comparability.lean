import ImpliedKeys.Schema.ColumnType

/-!
# Comparable column types

Each column type has one class of values: its category, or the enumeration or the database-specific
type that it refers to. Two types are comparable exactly when they have one class, so comparing is
an equivalence relation.
-/
namespace ImpliedKeys

/-- What the values of a column type are compared as. -/
inductive ValueClass where
  | builtIn (category : TypeCategory)
  | enumeration (name : String)
  | dialect (lowerCase : List Char)

namespace ColumnType

def valueClass : ColumnType → ValueClass
  | enumeration name => .enumeration name
  | dialect kind _ => .dialect (kind.toList.map Char.toLower)
  | t => .builtIn t.category

theorem comparable_iff {l r : ColumnType} :
    l.comparable r = true ↔ l.valueClass = r.valueClass := by
  cases l <;> cases r <;> simp [comparable, valueClass, category, sameIgnoringCase]

theorem comparable_refl (t : ColumnType) : t.comparable t = true :=
  comparable_iff.mpr rfl

theorem comparable_symm {l r : ColumnType} (h : l.comparable r = true) : r.comparable l = true :=
  comparable_iff.mpr (comparable_iff.mp h).symm

/-- Types may be exchanged for comparable ones. -/
theorem comparable_congr {l l' r r' : ColumnType} (hl : l.comparable l' = true)
    (hr : r.comparable r' = true) : l.comparable r = true ↔ l'.comparable r' = true := by
  rw [comparable_iff, comparable_iff, comparable_iff.mp hl, comparable_iff.mp hr]

end ColumnType

end ImpliedKeys
