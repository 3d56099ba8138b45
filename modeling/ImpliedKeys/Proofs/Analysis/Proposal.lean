import ImpliedKeys.Proofs.Analysis.Candidate
import ImpliedKeys.Proofs.Analysis.Index

/-!
# Which pairs are proposed and which are kept

A proposal is an admissible pair of a candidate and a column that matches it. Over a well-keyed
schema without a defect the proposals are the pairs that are proposable by the schema itself, without
the indexes. Of two proposals that are each other's reverse exactly one is kept.
-/
namespace ImpliedKeys

open Identifier (Word)

variable {config : Config} {s : Schema} {a : Association}

theorem mem_proposalsOf {t : Table} {candidate : ColumnRef} :
    a ∈ proposalsOf config s (.ofSchema config s) t candidate ↔
      a.parent = candidate ∧ a.child ∈ (Lookup.ofSchema config s).matching t candidate ∧
        Admissible config s candidate a.child := by
  have hdeclared : (Lookup.ofSchema config s).declared = .ofSchema s := rfl
  simp only [proposalsOf, List.mem_map, List.mem_filter, Bool.and_eq_true, decide_eq_true_eq,
    hdeclared, admissible_iff]
  constructor
  · intro hproposed
    obtain ⟨child, ⟨hmatch, -, hadmissible⟩, rfl⟩ := hproposed
    exact ⟨rfl, hmatch, hadmissible⟩
  · intro hmatched
    obtain ⟨rfl, hmatch, hadmissible⟩ := hmatched
    exact ⟨a.child, ⟨hmatch, hadmissible.distinct.symm, hadmissible⟩, rfl⟩

/-- Proposals in any schema, also one that stores its tables under other names. -/
theorem mem_proposals :
    a ∈ proposals config s (.ofSchema config s) ↔
      (∃ key t, s.table? key = some t ∧ a.parent.table = t.fullName ∧
        t.MayBeParent config a.parent.column ∧
        a.child ∈ (Lookup.ofSchema config s).matching t a.parent) ∧
      Admissible config s a.parent a.child := by
  simp only [proposals, List.mem_flatMap, mem_proposalsOf, NameMap.mem_values_iff]
  constructor
  · intro hproposed
    obtain ⟨t, ⟨key, ht⟩, _, hcandidate, rfl, hmatch, hadmissible⟩ := hproposed
    obtain ⟨htable, hparent⟩ := mem_candidates.mp hcandidate
    exact ⟨⟨key, t, ht, htable, hparent, hmatch⟩, hadmissible⟩
  · intro hmatched
    obtain ⟨⟨key, t, ht, htable, hparent, hmatch⟩, hadmissible⟩ := hmatched
    exact ⟨t, ⟨key, ht⟩, a.parent, mem_candidates.mpr ⟨htable, hparent⟩, rfl, hmatch, hadmissible⟩

/-- The pairs that an analysis proposes. -/
abbrev proposedPairs (config : Config) (s : Schema) : List Association :=
  proposals config s (.ofSchema config s)

/-- A child's column shares a match key with a key column of a table, or with the table itself if
the key column is in some primary key. -/
def Table.Matches (leads : List (List Word)) (t : Table) (parent child : String) : Prop :=
  ∃ k ∈ Identifier.columnKeys child, k ∈ Identifier.columnKeys parent ∨
    (∃ key, .primaryKey key ∈ t.constraints ∧ parent ∈ key) ∧ k ∈ Identifier.tableKeys leads t.name

/-- What makes a pair proposable, by the schema and the settings alone. -/
structure Proposable (config : Config) (s : Schema) (parent child : ColumnRef) : Prop where
  distinct : parent ≠ child
  undeclared : ¬ s.Declares parent child
  unreversed : ¬ s.Declares child parent
  apart : config.allowSelfAssociations = false → parent.table ≠ child.table
  comparable : config.checkColumnTypes = true → s.Comparable parent child
  hasChild : s.Has child
  candidate : ∃ t, s.table? parent.table = some t ∧ t.MayBeParent config parent.column ∧
    t.Matches (sharedLeads s config.maxTablePrefixes) parent.column child.column

/-- Where the indexes are read under the keys they were filled under, a match is a shared key. -/
theorem mem_matching_iff_matches {t : Table} {parent child : ColumnRef}
    (hname : t.fullName = parent.table) (ht : s.table? parent.table = some t)
    (hcolumn : t.hasColumn parent.column = true) :
    child ∈ (Lookup.ofSchema config s).matching t parent ↔ s.Has child ∧
      t.Matches (sharedLeads s config.maxTablePrefixes) parent.column child.column := by
  have hparent : s.Has parent := ⟨t, ht, hcolumn⟩
  rw [Lookup.mem_matching]
  unfold Table.Matches
  simp only [Lookup.mem_soughtKeys, Table.inPrimaryKey_iff, hname, ht, hparent, true_and,
    Option.some.injEq, exists_eq_left']

theorem mem_proposals_iff_proposable (hkeyed : s.WellKeyed) (hs : s.defect? = none) :
    a ∈ proposals config s (.ofSchema config s) ↔ Proposable config s a.parent a.child := by
  rw [mem_proposals]
  constructor
  · intro hproposed
    obtain ⟨⟨key, t, ht, htable, hparent, hmatch⟩, h⟩ := hproposed
    have hname : t.fullName = a.parent.table := htable.symm
    have ht : s.table? a.parent.table = some t := by
      rw [htable, hkeyed.fullName_eq ht]
      exact ht
    obtain ⟨hchild, hmatches⟩ :=
      (mem_matching_iff_matches hname ht (hparent.hasColumn hs ht)).mp hmatch
    exact ⟨h.distinct, h.undeclared, h.unreversed, h.apart, h.comparable, hchild,
      t, ht, hparent, hmatches⟩
  · intro h
    obtain ⟨t, ht, hparent, hmatches⟩ := h.candidate
    have hname := hkeyed.fullName_eq ht
    have hmatch : a.child ∈ (Lookup.ofSchema config s).matching t a.parent :=
      (mem_matching_iff_matches hname ht (hparent.hasColumn hs ht)).mpr ⟨h.hasChild, hmatches⟩
    refine ⟨⟨a.parent.table, t, ht, hname.symm, hparent, hmatch⟩, h.distinct, h.undeclared,
      h.unreversed, h.apart, ?_, ?_, h.comparable⟩
    · exact Schema.hasTable_iff.mpr ⟨t, ht⟩
    · obtain ⟨u, hu, -⟩ := h.hasChild
      exact Schema.hasTable_iff.mpr ⟨u, hu⟩

/-- A pair is kept when its reverse is not there, or when its parent is the smaller column. -/
theorem mem_keepOneDirection {all : List Association} :
    a ∈ keepOneDirection all ↔
      a ∈ all ∧ (a.flip ∈ all → compare a.parent a.child = .lt) := by
  simp only [keepOneDirection, staysAmong, List.mem_filter, Bool.or_eq_true, decide_eq_true_eq]
  rw [Decidable.imp_iff_not_or]

/-- A pair and its reverse are not both kept. -/
theorem flip_not_mem_keepOneDirection {all : List Association} (h : a ∈ keepOneDirection all) :
    a.flip ∉ keepOneDirection all := by
  intro hflip
  obtain ⟨ha, hlt⟩ := mem_keepOneDirection.mp h
  obtain ⟨hf, hgt⟩ := mem_keepOneDirection.mp hflip
  have hparent : compare a.parent a.child = .lt := hlt hf
  have hchild : compare a.child a.parent = .lt := hgt ha
  have hswap : compare a.child a.parent = (compare a.parent a.child).swap :=
    Std.OrientedCmp.eq_swap
  rw [hchild, hparent] at hswap
  cases hswap

/-- A kept pair is admissible, in whatever schema. -/
theorem admissible_of_mem_keptPairs (h : a ∈ keptPairs config s) :
    Admissible config s a.parent a.child :=
  (mem_proposals.mp (mem_keepOneDirection.mp h).1).2

theorem mem_keptPairs_iff (hkeyed : s.WellKeyed) (hs : s.defect? = none) :
    a ∈ keptPairs config s ↔ Proposable config s a.parent a.child ∧
      (Proposable config s a.child a.parent → compare a.parent a.child = .lt) := by
  rw [keptPairs, mem_keepOneDirection, mem_proposals_iff_proposable hkeyed hs,
    mem_proposals_iff_proposable hkeyed hs]
  rfl

end ImpliedKeys
