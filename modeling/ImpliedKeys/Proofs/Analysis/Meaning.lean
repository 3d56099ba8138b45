import ImpliedKeys.Proofs.Analysis.Attachment
import ImpliedKeys.Proofs.Analysis.Restatement

/-!
# Schemas that mean the same

Two schemas without a defect, with tables of the same names under the same keys that agree on what
an analysis reads of them, have equal findings and gain the same names. The orders of columns,
indexes and constraints, the details of columns, checks, indexes over several columns and the
version are nothing that an analysis reads.
-/
namespace ImpliedKeys

open Relation (EqvGen)

variable {config : Config} {namer : Namer} {s s' : Schema} {parent child : ColumnRef}

/-- A declared key is a reference of the child's table that is resolved to the parent's. -/
theorem Schema.declares_iff_refers : s.Declares parent child ↔ ∃ t written,
    s.table? child.table = some t ∧
      Constraint.Refers t.constraints child.column written parent.column ∧
      s.resolve? t written = some parent.table := by
  constructor
  · intro hdeclared
    obtain ⟨t, columns, written, others, ht, hkey, hresolved, hplace⟩ := hdeclared
    exact ⟨t, written, ht, ⟨columns, others, hkey, pair_mem_zip_iff.mpr hplace⟩, hresolved⟩
  · intro hrefers
    obtain ⟨t, written, ht, ⟨columns, others, hkey, hpair⟩, hresolved⟩ := hrefers
    exact ⟨t, columns, written, others, ht, hkey, hresolved, pair_mem_zip_iff.mp hpair⟩

/-- Tables of the same names are stored under the same keys, and they are alike. -/
structure Schema.Alike (s s' : Schema) : Prop where
  outline_eq : s.outline = s'.outline
  tables : ∀ {key t u}, s.table? key = some t → s'.table? key = some u → t.Alike u

/-- The same, where each table is a restatement of the other. -/
structure Schema.Restates (s s' : Schema) : Prop where
  outline_eq : s.outline = s'.outline
  tables : ∀ {key t u}, s.table? key = some t → s'.table? key = some u →
    EqvGen Table.Restates t u

namespace Schema

theorem Restates.alike (h : s.Restates s') : s.Alike s' where
  outline_eq := h.outline_eq
  tables ht hu := Table.alike_of_eqvGen (h.tables ht hu)

/-- Restated schemas stay so when restated tables are added to them. -/
theorem Restates.addTable (h : s.Restates s') {t u : Table} (ht : EqvGen Table.Restates t u)
    (hschema : t.schemaName = u.schemaName) (hname : t.name = u.name) :
    (s.addTable t).Restates (s'.addTable u) where
  outline_eq := by
    rw [outline_addTable, outline_addTable, h.outline_eq, Table.fullName_congr hschema hname,
      hschema, hname]
  tables {key v w} hv hw := by
    rw [table?_addTable] at hv hw
    rw [Table.fullName_congr hschema hname] at hv
    by_cases hkey : key = u.fullName
    · rw [if_pos hkey] at hv hw
      cases hv
      cases hw
      exact ht
    · rw [if_neg hkey] at hv hw
      exact h.tables hv hw

namespace Alike

theorem symm (h : s.Alike s') : s'.Alike s where
  outline_eq := h.outline_eq.symm
  tables hu ht := (h.tables ht hu).symm

theorem resembles (h : s.Alike s') : s.Resembles s' where
  outline_eq := h.outline_eq
  tables ht hu := (h.tables ht hu).toResembles

theorem declares (h : s.Alike s') (hdeclared : s.Declares parent child) :
    s'.Declares parent child := by
  rw [declares_iff_refers] at hdeclared ⊢
  obtain ⟨t, written, ht, hrefers, hresolved⟩ := hdeclared
  obtain ⟨u, hu, hschema, -⟩ := table?_of_outline_eq h.outline_eq ht
  rw [resolve?_of_outline_eq h.outline_eq hschema] at hresolved
  exact ⟨u, written, hu, ((h.tables ht hu).refers _ _ _).mp hrefers, hresolved⟩

theorem mem_proposedPairs (h : s.Alike s') {a : Association} (ha : a ∈ proposedPairs config s) :
    a ∈ proposedPairs config s' := by
  have hadmissible := (mem_proposals.mp ha).2
  refine h.resembles.mem_proposedPairs ha (fun hdeclared => ?_) (fun hdeclared => ?_)
  · exact hadmissible.undeclared (h.symm.declares hdeclared)
  · exact hadmissible.unreversed (h.symm.declares hdeclared)

theorem mem_reportedPairs_iff (h : s.Alike s') {a : Association} :
    a ∈ reportedPairs config s ↔ a ∈ reportedPairs config s' := by
  have hproposed (b : Association) : b ∈ proposedPairs config s ↔ b ∈ proposedPairs config s' :=
    ⟨h.mem_proposedPairs, h.symm.mem_proposedPairs⟩
  rw [mem_reportedPairs, mem_reportedPairs, tableCount_eq_of_outline_eq h.outline_eq, keptPairs,
    keptPairs, mem_keepOneDirection, mem_keepOneDirection, hproposed, hproposed]

end Alike

end Schema

/-- Both analyses have the same findings, and each attaches to its tables the names of these. -/
def SameAnalysis (config : Config) (namer : Namer) (s s' : Schema) : Prop :=
  ∃ found, (analyze config namer s).outcome = .ok found ∧
    (analyze config namer s').outcome = .ok found ∧
    s.Gains (analyze config namer s).schema found.Connects ∧
    s'.Gains (analyze config namer s').schema found.Connects

theorem Schema.Alike.sameAnalysis (h : s.Alike s') (hs : s.defect? = none)
    (hs' : s'.defect? = none) : SameAnalysis config namer s s' := by
  obtain ⟨found, hok⟩ := exists_ok_of_sound config namer hs
  have hgroups := (groups_and_gains_of_ok hok).1.of_mem_iff h.mem_reportedPairs_iff
  have hok' := (outcome_eq_ok_iff hs').mpr hgroups
  exact ⟨found, hok, hok', gains_of_ok hok, gains_of_ok hok'⟩

/-- The version of a schema makes no difference. -/
theorem Schema.sameAnalysis_of_tables_eq (htables : s.tables = s'.tables) (hs : s.defect? = none) :
    SameAnalysis config namer s s' := by
  cases s
  cases s'
  cases htables
  refine Alike.sameAnalysis ⟨rfl, fun {_ t _} ht hu => ?_⟩ hs hs
  cases ht.symm.trans hu
  exact Table.Alike.refl t

/-- An analysis sees only the meaning of a schema, and restating a table does not change that. -/
theorem sameAnalysis_of_same_meaning (config : Config) (namer : Namer) (hs : s.defect? = none)
    (hs' : s'.defect? = none) :
    (s.Alike s' → SameAnalysis config namer s s') ∧
      (s.Restates s' → SameAnalysis config namer s s') :=
  ⟨fun h => h.sameAnalysis hs hs', fun h => h.alike.sameAnalysis hs hs'⟩

namespace Ledger

/-- Accounts have a key of two columns. -/
def accounts : Table where
  name := "accounts"
  columns := [{ name := "region", type := .varchar 2 }, { name := "number", type := .integer none }]
  indexes := [{ name := "by_number", columns := ["number"] }]
  constraints := [.primaryKey ["region", "number"]]

/-- Entries declare which account they belong to, but not which entry they reverse. -/
def entries : Table where
  name := "entries"
  columns := [{ name := "id", type := .integer none },
    { name := "account_region", type := .varchar 2 },
    { name := "account_number", type := .integer none },
    { name := "reversed_entry_id", type := .integer none }]
  constraints := [.primaryKey ["id"],
    .foreignKey ["account_region", "account_number"] "accounts" ["region", "number"]]

def accountsRestated : Table where
  name := "accounts"
  columns := [{ name := "number", type := .decimal 12 0, nullable := true },
    { name := "region", type := .varchar 2 }]
  constraints := [.primaryKey ["number", "region"]]

def entriesRestated : Table :=
  { entries with constraints := [.foreignKey ["account_region"] "accounts" ["region"],
      .primaryKey ["id"], .foreignKey ["account_number"] "accounts" ["number"]] }

def original : Schema := Schema.addTable (Schema.addTable { version := "1.0" } accounts) entries

def restated : Schema :=
  Schema.addTable (Schema.addTable { version := "2.0" } accountsRestated) entriesRestated

theorem eqvGen_accounts : EqvGen Table.Restates accounts accountsRestated := by
  have hindex := @Table.Restates.indexes accounts [] _ _ []
    (@Index.Restates.drop { name := "by_number", columns := ["number"] } (.inl rfl))
  have hkey := @Table.Restates.constraints { accounts with indexes := [] } [] _ _ []
    (.keyOrder (.swap "number" "region" []))
  have hdetails := @Table.Restates.columns { accountsRestated with indexes := [] }
    [{ name := "region", type := .varchar 2 }] _ _ []
    (@Column.Restates.details { name := "number", type := .integer none }
      { name := "number", type := .decimal 12 0, nullable := true } rfl rfl)
  have hswap := @Table.Restates.columns accountsRestated [] _ _ []
    (@Column.Restates.swap { name := "region", type := .varchar 2 }
      { name := "number", type := .decimal 12 0, nullable := true } (by decide))
  exact ((EqvGen.rel _ _ hindex).trans _ _ _ (.rel _ _ hkey)).trans _ _ _
    ((EqvGen.rel _ _ hdetails).trans _ _ _ (.rel _ _ hswap))

theorem eqvGen_entries : EqvGen Table.Restates entries entriesRestated := by
  have hsplit := @Table.Restates.constraints entries [.primaryKey ["id"]] _ _ []
    (@Constraint.Restates.split ["account_region", "account_number"] "accounts"
      ["region", "number"])
  have hswap := @Table.Restates.constraints entries [] _ _
    [.foreignKey ["account_number"] "accounts" ["number"]]
    (@Constraint.Restates.swap (.primaryKey ["id"])
      (.foreignKey ["account_region"] "accounts" ["region"]) (.inr rfl))
  exact (EqvGen.rel _ _ hsplit).trans _ _ _ (.rel _ _ hswap)

theorem restates : original.Restates restated :=
  have hempty : Schema.Restates { version := "1.0" } { version := "2.0" } := ⟨rfl, nofun⟩
  (hempty.addTable eqvGen_accounts rfl rfl).addTable eqvGen_entries rfl rfl

end Ledger

/-- Its columns, keys and indexes restated, a ledger still implies which entries are reversed. -/
theorem sameAnalysis_of_same_meaning_ledger :
    Ledger.original.defect? = none ∧ Ledger.restated.defect? = none ∧
    Ledger.original.Restates Ledger.restated ∧
    SameAnalysis {} .conventional Ledger.original Ledger.restated := by
  have horiginal : Ledger.original.defect? = none := by decide +kernel
  have hrestated : Ledger.restated.defect? = none := by decide +kernel
  have hsame := sameAnalysis_of_same_meaning {} .conventional horiginal hrestated
  exact ⟨horiginal, hrestated, Ledger.restates, hsame.2 Ledger.restates⟩

example : keptPairs {} Ledger.original =
    [⟨⟨"entries", "id"⟩, ⟨"entries", "reversed_entry_id"⟩⟩] := by decide +kernel

end ImpliedKeys
