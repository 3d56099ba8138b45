import ImpliedKeys.Proofs.Analysis.Correspondence
import ImpliedKeys.Proofs.Analysis.Findings

/-!
# The columns of a reported pair

The child of a reported pair is a column of the schema. A table is stored under the name of the
parent, and some table of that qualified name has the parent's column. Unless types are checked
nothing else looks the parent up, so where a table is stored under another name the two tables may
be different ones and the parent need not be a column of the schema.
-/
namespace ImpliedKeys

variable {config : Config} {namer : Namer} {s : Schema} {found : Findings} {a : Association}

/-- Every table of a qualified name is stored under that name. -/
def Schema.StoredAsNamed (s : Schema) (name : String) : Prop :=
  ∀ key t, s.table? key = some t → t.fullName = name → key = name

theorem Schema.WellKeyed.storedAsNamed (hkeyed : s.WellKeyed) (name : String) :
    s.StoredAsNamed name := by
  intro key t ht hname
  rw [← hname]
  exact (hkeyed.fullName_eq ht).symm

theorem Schema.Comparable.has_parent {parent child : ColumnRef} (h : s.Comparable parent child) :
    s.Has parent := by
  obtain ⟨p, -, hp, -⟩ := h
  exact Schema.has_iff.mpr ⟨p, hp⟩

/-- A proposed child is matched through the column index, which holds columns of the schema only. -/
theorem has_child_of_mem_proposals (h : a ∈ proposedPairs config s) : s.Has a.child := by
  obtain ⟨⟨key, t, -, -, -, hmatch⟩, -⟩ := mem_proposals.mp h
  exact (Lookup.mem_matching.mp hmatch).1

/-- A proposed parent is a column of a table of the parent's qualified name. -/
theorem exists_parent_of_mem_proposals (hs : s.defect? = none) (h : a ∈ proposedPairs config s) :
    ∃ key t, s.table? key = some t ∧ t.fullName = a.parent.table ∧
      t.hasColumn a.parent.column = true := by
  obtain ⟨⟨key, t, ht, htable, hparent, -⟩, -⟩ := mem_proposals.mp h
  exact ⟨key, t, ht, htable.symm, hparent.hasColumn hs ht⟩

/-- A reported pair has been proposed. -/
theorem mem_proposedPairs_of_reported (h : (analyze config namer s).outcome = .ok found)
    (ha : a ∈ found.associations) : a ∈ proposedPairs config s :=
  (mem_keepOneDirection.mp ((mem_associations_of_ok h).mp ha).2).1

/-- The columns of a reported pair, in any schema that an analysis accepts: the child exists, a table
is stored under the parent's table name, and a table of that qualified name has the parent's column.
The parent itself exists if types are checked or each table of that name is stored under it, as in a
well-keyed schema. -/
theorem endpoints_of_reported (h : (analyze config namer s).outcome = .ok found)
    (ha : a ∈ found.associations) :
    s.Has a.child ∧ s.hasTable a.parent.table = true ∧
    (∃ key t, s.table? key = some t ∧ t.fullName = a.parent.table ∧
      t.hasColumn a.parent.column = true) ∧
    (config.checkColumnTypes = true ∨ s.StoredAsNamed a.parent.table → s.Has a.parent) ∧
    (s.WellKeyed → s.Has a.parent) := by
  have hproposed := mem_proposedPairs_of_reported h ha
  have hadmissible := (mem_proposals.mp hproposed).2
  have hparent := exists_parent_of_mem_proposals (defect?_eq_none_of_ok h) hproposed
  have hnamed (hstored : s.StoredAsNamed a.parent.table) : s.Has a.parent := by
    obtain ⟨key, t, ht, hname, hcolumn⟩ := hparent
    rw [hstored key t ht hname] at ht
    exact ⟨t, ht, hcolumn⟩
  refine ⟨has_child_of_mem_proposals hproposed, hadmissible.parentStored, hparent, fun hlooked => ?_,
    fun hkeyed => hnamed (hkeyed.storedAsNamed _)⟩
  rcases hlooked with hchecked | hstored
  · exact (hadmissible.comparable hchecked).has_parent
  · exact hnamed hstored

/-- Accounts are numbered. A table that held them before, by their `id`, is still called the same and
is stored under another name. -/
def renumbered : Schema where
  version := "1.0"
  tables := .ofList [
    ("accounts", {
      name := "accounts", columns := [{ name := "number", type := .integer none }],
      constraints := [.primaryKey ["number"]] }),
    ("accounts_old", {
      name := "accounts", columns := [{ name := "id", type := .integer none }],
      constraints := [.primaryKey ["id"]] }),
    ("orders", { name := "orders", columns := [{ name := "account_id", type := .integer none }] })]

/-- With types checked the orders refer to the accounts by their number, and both columns exist. -/
theorem endpoints_of_reported_renumbered :
    ∃ found, (analyze {} .conventional renumbered).outcome = .ok found ∧
      ⟨⟨"accounts", "number"⟩, ⟨"orders", "account_id"⟩⟩ ∈ found.associations ∧
      renumbered.Has ⟨"orders", "account_id"⟩ ∧ renumbered.Has ⟨"accounts", "number"⟩ := by
  have hok := (analyze_of_sound {} .conventional (by decide +kernel : renumbered.defect? = none)).1
  have hreported := (mem_associations_of_ok hok
    (a := ⟨⟨"accounts", "number"⟩, ⟨"orders", "account_id"⟩⟩)).mpr (by decide +kernel)
  obtain ⟨hchild, -, -, hparent, -⟩ := endpoints_of_reported hok hreported
  exact ⟨_, hok, hreported, hchild, hparent (.inl rfl)⟩

/-- With types unchecked they also refer to an `id` of the accounts, which is no column of theirs. -/
theorem not_has_parent_renumbered :
    ∃ found, (analyze { checkColumnTypes := false } .conventional renumbered).outcome = .ok found ∧
      ⟨⟨"accounts", "id"⟩, ⟨"orders", "account_id"⟩⟩ ∈ found.associations ∧
      ¬ renumbered.Has ⟨"accounts", "id"⟩ := by
  have hok := (analyze_of_sound { checkColumnTypes := false } .conventional
    (by decide +kernel : renumbered.defect? = none)).1
  have hreported := (mem_associations_of_ok hok
    (a := ⟨⟨"accounts", "id"⟩, ⟨"orders", "account_id"⟩⟩)).mpr (by decide +kernel)
  have hcolumn : renumbered.column? ⟨"accounts", "id"⟩ = none := by decide +kernel
  refine ⟨_, hok, hreported, fun hhas => ?_⟩
  obtain ⟨c, hc⟩ := Schema.has_iff.mp hhas
  rw [hcolumn] at hc
  cases hc

end ImpliedKeys
