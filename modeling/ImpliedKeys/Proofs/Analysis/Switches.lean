import ImpliedKeys.Proofs.Analysis.Direction
import ImpliedKeys.Proofs.Analysis.Findings
import ImpliedKeys.Proofs.Schema.Comparability

/-!
# The switches of the settings as filters of the findings

Asking for comparable types, or refusing pairs inside one table, takes the pairs that fail from the
findings and does nothing else: a pair and its reverse pass or fail together, so no pair is turned
round. This holds in every schema without a defect, however its tables are stored.
-/
namespace ImpliedKeys

variable {config strict : Config} {namer : Namer} {s : Schema} {found : Findings}
variable {p : Association → Prop} [DecidablePred p] {a : Association}

def ImpliedKey.restrict (k : ImpliedKey) (p : Association → Prop) [DecidablePred p] : ImpliedKey :=
  { k with pairs := k.pairs.filter (p ·) }

/-- The findings with only the pairs that satisfy a condition. A key that has none left goes. -/
def Findings.restrict (f : Findings) (p : Association → Prop) [DecidablePred p] : Findings :=
  ⟨(f.keys.map (·.restrict p)).filter (·.pairs ≠ [])⟩

theorem ImpliedKey.mem_pairs_restrict {k : ImpliedKey} :
    a ∈ (k.restrict p).pairs ↔ a ∈ k.pairs ∧ p a := by
  simp [restrict]

namespace Findings

theorem mem_keys_restrict {f : Findings} {j : ImpliedKey} :
    j ∈ (f.restrict p).keys ↔ ∃ k ∈ f.keys, k.restrict p = j ∧ ∃ a ∈ k.pairs, p a := by
  unfold restrict
  rw [List.mem_filter, List.mem_map]
  constructor
  · intro hj
    obtain ⟨⟨k, hk, rfl⟩, hpairs⟩ := hj
    obtain ⟨a, ha⟩ := List.exists_mem_of_ne_nil _ (of_decide_eq_true hpairs)
    exact ⟨k, hk, rfl, a, ImpliedKey.mem_pairs_restrict.mp ha⟩
  · intro hj
    obtain ⟨k, hk, rfl, a, ha⟩ := hj
    have hne := List.ne_nil_of_mem (ImpliedKey.mem_pairs_restrict.mpr ha)
    exact ⟨⟨k, hk, rfl⟩, decide_eq_true hne⟩

theorem mem_associations_restrict {f : Findings} :
    a ∈ (f.restrict p).associations ↔ a ∈ f.associations ∧ p a := by
  simp only [mem_associations, mem_keys_restrict]
  constructor
  · intro ha
    obtain ⟨_, ⟨k, hk, rfl, -⟩, hpair⟩ := ha
    obtain ⟨hpair, hp⟩ := ImpliedKey.mem_pairs_restrict.mp hpair
    exact ⟨⟨k, hk, hpair⟩, hp⟩
  · intro ha
    obtain ⟨⟨k, hk, hpair⟩, hp⟩ := ha
    exact ⟨_, ⟨k, hk, rfl, a, hpair, hp⟩, ImpliedKey.mem_pairs_restrict.mpr ⟨hpair, hp⟩⟩

/-- Restricted findings list the pairs that are left, in the order they had. -/
theorem Groups.restrict {reported fewer : List Association} (h : found.Groups namer reported)
    (hfewer : ∀ a, a ∈ fewer ↔ a ∈ reported ∧ p a) : (found.restrict p).Groups namer fewer where
  increasing_names := by
    have hsub : ((found.restrict p).keys.map (·.name)).Sublist
        ((found.keys.map (·.restrict p)).map (·.name)) := List.filter_sublist.map _
    have hnames : (found.keys.map (·.restrict p)).map (·.name) = found.keys.map (·.name) := by
      rw [List.map_map]
      rfl
    exact (hnames ▸ h.increasing_names : Increasing _).sublist hsub
  increasing_pairs j hj := by
    obtain ⟨k, hk, rfl, -⟩ := mem_keys_restrict.mp hj
    exact (h.increasing_pairs k hk).sublist List.filter_sublist
  mem_pairs j hj a := by
    obtain ⟨k, hk, rfl, -⟩ := mem_keys_restrict.mp hj
    rw [ImpliedKey.mem_pairs_restrict, h.mem_pairs k hk, hfewer, and_right_comm]
    rfl
  listed_iff name := by
    simp only [mem_keys_restrict, hfewer]
    constructor
    · intro hlisted
      obtain ⟨_, ⟨k, hk, rfl, a, hpair, hp⟩, rfl⟩ := hlisted
      obtain ⟨ha, hname⟩ := (h.mem_pairs k hk a).mp hpair
      exact ⟨a, ⟨ha, hp⟩, hname⟩
    · intro hpair
      obtain ⟨a, ⟨ha, hp⟩, rfl⟩ := hpair
      obtain ⟨k, hk, hname⟩ := (h.listed_iff _).mpr ⟨a, ha, rfl⟩
      have hpair : a ∈ k.pairs := (h.mem_pairs k hk a).mpr ⟨ha, hname.symm⟩
      exact ⟨k.restrict p, ⟨k, hk, rfl, a, hpair, hp⟩, hname⟩

end Findings

/-- Settings whose proposals are those of others that satisfy a condition, the same for a pair and
its reverse, restrict the findings to the condition. -/
theorem outcome_restrict (hs : s.defect? = none) (hflip : ∀ a, p a.flip ↔ p a)
    (hstrict : ∀ a, a ∈ proposedPairs strict s ↔ a ∈ proposedPairs config s ∧ p a)
    (h : (analyze config namer s).outcome = .ok found) :
    (analyze strict namer s).outcome = .ok (found.restrict p) := by
  rw [outcome_eq_ok_iff hs] at h ⊢
  refine h.restrict fun a => ?_
  rw [mem_reportedPairs, mem_reportedPairs, keptPairs, keptPairs,
    mem_keepOneDirection_iff_of_flip hflip hstrict, and_assoc]

namespace Schema

instance {parent child : ColumnRef} : Decidable (s.Comparable parent child) :=
  decidable_of_iff (∃ a ∈ s.column? parent, ∃ b ∈ s.column? child, a.type.comparable b.type = true)
    (by simp only [Option.mem_def, Comparable, exists_and_left])

theorem comparable_comm {parent child : ColumnRef} :
    s.Comparable child parent ↔ s.Comparable parent child := by
  constructor
  · intro h
    obtain ⟨a, b, ha, hb, hab⟩ := h
    exact ⟨b, a, hb, ha, ColumnType.comparable_symm hab⟩
  · intro h
    obtain ⟨a, b, ha, hb, hab⟩ := h
    exact ⟨b, a, hb, ha, ColumnType.comparable_symm hab⟩

end Schema

theorem mem_proposals_checkColumnTypes :
    a ∈ proposedPairs { config with checkColumnTypes := true } s ↔
      a ∈ proposedPairs { config with checkColumnTypes := false } s ∧
        s.Comparable a.parent a.child := by
  rw [mem_proposals, mem_proposals]
  constructor
  · intro hproposed
    obtain ⟨hmatched, h⟩ := hproposed
    exact ⟨⟨hmatched, { h with comparable := nofun }⟩, h.comparable rfl⟩
  · intro hproposed
    obtain ⟨⟨hmatched, h⟩, hcomparable⟩ := hproposed
    exact ⟨hmatched, { h with comparable := fun _ => hcomparable }⟩

theorem mem_proposals_allowSelfAssociations :
    a ∈ proposedPairs { config with allowSelfAssociations := false } s ↔
      a ∈ proposedPairs { config with allowSelfAssociations := true } s ∧
        a.parent.table ≠ a.child.table := by
  rw [mem_proposals, mem_proposals]
  constructor
  · intro hproposed
    obtain ⟨hmatched, h⟩ := hproposed
    exact ⟨⟨hmatched, { h with apart := nofun }⟩, h.apart rfl⟩
  · intro hproposed
    obtain ⟨⟨hmatched, h⟩, hapart⟩ := hproposed
    exact ⟨hmatched, { h with apart := fun _ => hapart }⟩

/-- The columns of a pair are found and their types are comparable. -/
abbrev Schema.ComparesPair (s : Schema) (a : Association) : Prop := s.Comparable a.parent a.child

abbrev Association.JoinsTables (a : Association) : Prop := a.parent.table ≠ a.child.table

theorem outcome_checkColumnTypes (config : Config) (hs : s.defect? = none)
    (h : (analyze { config with checkColumnTypes := false } namer s).outcome = .ok found) :
    (analyze { config with checkColumnTypes := true } namer s).outcome =
      .ok (found.restrict s.ComparesPair) :=
  outcome_restrict hs (fun _ => Schema.comparable_comm) (fun _ => mem_proposals_checkColumnTypes) h

theorem outcome_allowSelfAssociations (config : Config) (hs : s.defect? = none)
    (h : (analyze { config with allowSelfAssociations := true } namer s).outcome = .ok found) :
    (analyze { config with allowSelfAssociations := false } namer s).outcome =
      .ok (found.restrict Association.JoinsTables) :=
  outcome_restrict hs (fun _ => ne_comm) (fun _ => mem_proposals_allowSelfAssociations) h

/-- Each switch takes exactly the pairs that fail it from the findings, and it makes no difference
which of the two is set first. -/
theorem switches_restrict_findings (config : Config) (namer : Namer) (hs : s.defect? = none) :
    (∃ found, (analyze { config with checkColumnTypes := false } namer s).outcome = .ok found ∧
      (analyze { config with checkColumnTypes := true } namer s).outcome =
        .ok (found.restrict s.ComparesPair) ∧
      ∀ a, a ∈ (found.restrict s.ComparesPair).associations ↔
        a ∈ found.associations ∧ s.ComparesPair a) ∧
    (∃ found, (analyze { config with allowSelfAssociations := true } namer s).outcome = .ok found ∧
      (analyze { config with allowSelfAssociations := false } namer s).outcome =
        .ok (found.restrict Association.JoinsTables) ∧
      ∀ a, a ∈ (found.restrict Association.JoinsTables).associations ↔
        a ∈ found.associations ∧ a.JoinsTables) ∧
    ∃ found, (analyze { config with checkColumnTypes := false, allowSelfAssociations := true }
        namer s).outcome = .ok found ∧
      (analyze { config with checkColumnTypes := true, allowSelfAssociations := false }
        namer s).outcome = .ok ((found.restrict s.ComparesPair).restrict Association.JoinsTables) ∧
      (found.restrict s.ComparesPair).restrict Association.JoinsTables =
        (found.restrict Association.JoinsTables).restrict s.ComparesPair := by
  refine ⟨?_, ?_, ?_⟩
  · obtain ⟨_, hok⟩ := exists_ok_of_sound { config with checkColumnTypes := false } namer hs
    exact ⟨_, hok, outcome_checkColumnTypes config hs hok,
      fun _ => Findings.mem_associations_restrict⟩
  · obtain ⟨_, hok⟩ := exists_ok_of_sound { config with allowSelfAssociations := true } namer hs
    exact ⟨_, hok, outcome_allowSelfAssociations config hs hok,
      fun _ => Findings.mem_associations_restrict⟩
  · obtain ⟨_, hok⟩ := exists_ok_of_sound
      { config with checkColumnTypes := false, allowSelfAssociations := true } namer hs
    -- both orders of setting the switches end with one outcome, so the restrictions agree
    have htypes := outcome_checkColumnTypes { config with allowSelfAssociations := true } hs hok
    have htables := outcome_allowSelfAssociations { config with checkColumnTypes := false } hs hok
    have htypesFirst :=
      outcome_allowSelfAssociations { config with checkColumnTypes := true } hs htypes
    have htablesFirst :=
      outcome_checkColumnTypes { config with allowSelfAssociations := false } hs htables
    rw [htypesFirst] at htablesFirst
    exact ⟨_, hok, htypesFirst, Except.ok.inj htablesFirst⟩

/-- Departments have a head, employees have a boss and name their department by a text. -/
def staff : Schema := Schema.addTable (Schema.addTable { version := "1.0" }
  { name := "departments",
    columns := [{ name := "id", type := .integer none },
      { name := "head_employee_id", type := .integer none }],
    constraints := [.primaryKey ["id"]] })
  { name := "employees",
    columns := [{ name := "id", type := .integer none },
      { name := "boss_employee_id", type := .integer none },
      { name := "department_id", type := .varchar 8 }],
    constraints := [.primaryKey ["id"]] }

/-- Of the three pairs among the staff one switch takes the department and the other the boss. -/
theorem switches_restrict_findings_staff :
    staff.defect? = none ∧
    ∃ found, (analyze { checkColumnTypes := false } .conventional staff).outcome = .ok found ∧
      (analyze { allowSelfAssociations := false } .conventional staff).outcome =
        .ok ((found.restrict staff.ComparesPair).restrict Association.JoinsTables) ∧
      (found.restrict staff.ComparesPair).restrict Association.JoinsTables =
        (found.restrict Association.JoinsTables).restrict staff.ComparesPair := by
  have hsound : staff.defect? = none := by decide +kernel
  exact ⟨hsound, (switches_restrict_findings {} .conventional hsound).2.2⟩

example : keptPairs { checkColumnTypes := false } staff =
    [⟨⟨"departments", "id"⟩, ⟨"employees", "department_id"⟩⟩,
      ⟨⟨"employees", "id"⟩, ⟨"departments", "head_employee_id"⟩⟩,
      ⟨⟨"employees", "id"⟩, ⟨"employees", "boss_employee_id"⟩⟩] := by decide +kernel

end ImpliedKeys
