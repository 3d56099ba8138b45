import ImpliedKeys.Proofs.Schema.Outline
import ImpliedKeys.Proofs.Schema.Soundness

/-!
# Resolving the tables of foreign keys

In a well-keyed schema a written name means the table stored under it, or else the one table of that
name in the namespace of the referring table. Which table that is depends on no order of the tables.
-/
namespace ImpliedKeys

namespace Schema

variable {s s' : Schema} {key written : String} {t u : Table}

theorem WellKeyed.table?_fullName (hkeyed : s.WellKeyed) (ht : s.table? key = some t) :
    s.table? t.fullName = some t := by
  rw [← hkeyed _ (table?_eq_some_iff.mp ht)]
  exact ht

theorem WellKeyed.addTable (hkeyed : s.WellKeyed) : (s.addTable t).WellKeyed := by
  intro e he
  have hstored := table?_eq_some_iff.mpr he
  rw [table?_addTable] at hstored
  by_cases hkey : e.1 = t.fullName
  · rw [if_pos hkey] at hstored
    cases hstored
    exact hkey
  · rw [if_neg hkey] at hstored
    exact hkeyed _ (table?_eq_some_iff.mp hstored)

theorem WellKeyed.of_outline_eq (h : s.outline = s'.outline) (hkeyed : s.WellKeyed) :
    s'.WellKeyed := by
  intro e he
  obtain ⟨t, ht, hschema, hname⟩ := table?_of_outline_eq h.symm (table?_eq_some_iff.mpr he)
  rw [Table.fullName_congr hschema hname]
  exact hkeyed _ (table?_eq_some_iff.mp ht)

/-- Tables stored under one key resolve a written name alike if all tables are called the same. -/
theorem resolve?_eq_of_outline_eq (h : s.outline = s'.outline) (ht : s.table? key = some t)
    (hu : s'.table? key = some u) : s.resolve? t written = s'.resolve? u written := by
  obtain ⟨v, hv, hschema, -⟩ := table?_of_outline_eq h ht
  rw [hu] at hv
  cases hv
  exact resolve?_of_outline_eq h hschema written

theorem WellKeyed.resolve?_eq_some_iff (hkeyed : s.WellKeyed) :
    s.resolve? t written = some key ↔ s.hasTable written = true ∧ key = written ∨
      s.hasTable written = false ∧
        ∃ u, s.table? key = some u ∧ u.schemaName = t.schemaName ∧ u.name = written := by
  unfold resolve?
  cases hstored : s.hasTable written with
  | true => simp [eq_comm]
  | false =>
    simp only [Bool.false_eq_true, if_false, false_and, false_or, true_and, Option.map_eq_some_iff]
    constructor
    · intro hfound
      obtain ⟨u, hu, rfl⟩ := hfound
      obtain ⟨other, hother⟩ := NameMap.mem_values_iff.mp (List.mem_of_find?_eq_some hu)
      have hnames := List.find?_some hu
      simp only [decide_eq_true_eq] at hnames
      exact ⟨u, hkeyed.table?_fullName hother, hnames⟩
    · intro hbeside
      obtain ⟨u, hu, hnames⟩ := hbeside
      -- some table is found, and one of these names has this qualified name
      have hsome : (s.tables.values.find? fun v =>
          v.schemaName = t.schemaName ∧ v.name = written).isSome = true :=
        List.find?_isSome.mpr ⟨u, NameMap.mem_values_iff.mpr ⟨key, hu⟩, decide_eq_true hnames⟩
      obtain ⟨v, hv⟩ := Option.isSome_iff_exists.mp hsome
      have hfound := List.find?_some hv
      simp only [decide_eq_true_eq] at hfound
      have hname : v.fullName = u.fullName :=
        Table.fullName_congr (hfound.1.trans hnames.1.symm) (hfound.2.trans hnames.2.symm)
      exact ⟨v, hv, hname.trans (hkeyed _ (table?_eq_some_iff.mp hu)).symm⟩

end Schema

end ImpliedKeys
