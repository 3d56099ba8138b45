import ImpliedKeys.Proofs.Analysis.Findings
import ImpliedKeys.Proofs.Schema.Demand

/-!
# When an analysis succeeds

An analysis of a well-keyed schema succeeds exactly if every column that an index or a constraint
names is there and every foreign key refers to as many columns as it has, all of them columns of a
table that is there. Otherwise it ends with the defect of the first demand that is not met, and what
that defect says is so.
-/
namespace ImpliedKeys

variable {config : Config} {namer : Namer} {s : Schema} {d : Defect}

theorem outcome_eq_error_iff : (analyze config namer s).outcome = .error d ↔ s.defect? = some d := by
  cases hs : s.defect? with
  | some e =>
    rw [analyze_of_defect hs, Except.error.injEq, Option.some.injEq]
  | none =>
    obtain ⟨found, hfound⟩ := exists_ok_of_sound config namer hs
    simp [hfound]

theorem exists_ok_iff :
    (∃ found, (analyze config namer s).outcome = .ok found) ↔ s.defect? = none := by
  constructor
  · intro hok
    obtain ⟨found, hfound⟩ := hok
    exact defect?_eq_none_of_ok hfound
  · intro hs
    exact exists_ok_of_sound config namer hs

/-- The analysis of a well-keyed schema succeeds exactly if all columns and tables that are named are
there, with the counts of foreign keys equal. It ends with a defect exactly if that is the defect of
the first demand that is not met, and then the defect is in the schema. -/
theorem precondition_exact (config : Config) (namer : Namer) (hkeyed : s.WellKeyed) :
    ((∃ found, (analyze config namer s).outcome = .ok found) ↔
      ∀ key t, s.table? key = some t →
        (∀ i ∈ t.indexes, ∀ c ∈ i.columns, t.hasColumn c = true) ∧
        ∀ k ∈ t.constraints, (∀ c ∈ k.columns, t.hasColumn c = true) ∧
          ∀ columns written others, k = .foreignKey columns written others →
            columns.length = others.length ∧
            ∃ parent, s.Means t written parent ∧ ∀ c ∈ others, parent.hasColumn c = true) ∧
    ∀ d, ((analyze config namer s).outcome = .error d ↔ s.FirstUnmet d) ∧
      ((analyze config namer s).outcome = .error d → s.Exhibits d) := by
  constructor
  · have hsupports (t : Table) (k : Constraint) : s.Supports t k ↔
        (∀ c ∈ k.columns, t.hasColumn c = true) ∧
          ∀ columns written others, k = .foreignKey columns written others →
            columns.length = others.length ∧
            ∃ parent, s.Means t written parent ∧ ∀ c ∈ others, parent.hasColumn c = true := by
      simp only [← hkeyed.referenced?_eq_some_iff]
      exact ⟨fun h => ⟨h.own, h.referenced⟩, fun h => ⟨h.1, h.2⟩⟩
    simp only [exists_ok_iff, Schema.defect?_eq_none_iff, hsupports]
  · intro d
    rw [outcome_eq_error_iff, hkeyed.defect?_eq_some_iff]
    exact ⟨Iff.rfl, fun h => h.exhibits hkeyed⟩

/-- Invoices refer by two columns to customers that are not there, and by an index to a column that
they lack. -/
def invoices : Schema := shop.addTable
  { schemaName := some "sales", name := "invoices",
    columns := [{ name := "id", type := .integer none },
      { name := "customer_id", type := .integer none }],
    indexes := [{ name := "by_id", columns := ["id"] }],
    constraints := [.foreignKey ["customer_id", "id"] "customers" ["id"],
      .check ["total"] "total > 0"] }

/-- The counts of the foreign key are looked at before its table, and before the check. -/
theorem precondition_exact_invoices :
    invoices.WellKeyed ∧
    (analyze {} .conventional invoices).outcome =
      .error (.columnCounts 2 1 (some { table := some "sales.invoices" })) ∧
    invoices.FirstUnmet (.columnCounts 2 1 (some { table := some "sales.invoices" })) ∧
    invoices.Exhibits (.columnCounts 2 1 (some { table := some "sales.invoices" })) := by
  have hkeyed : invoices.WellKeyed := by decide +kernel
  have hdefect : (analyze {} .conventional invoices).outcome =
      .error (.columnCounts 2 1 (some { table := some "sales.invoices" })) :=
    outcome_eq_error_iff.mpr (by decide +kernel)
  obtain ⟨hfirst, hexhibits⟩ := (precondition_exact {} .conventional hkeyed).2 _
  exact ⟨hkeyed, hdefect, hfirst.mp hdefect, hexhibits hdefect⟩

end ImpliedKeys
