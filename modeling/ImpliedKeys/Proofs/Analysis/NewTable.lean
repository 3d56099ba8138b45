import ImpliedKeys.Proofs.Analysis.Correspondence
import ImpliedKeys.Proofs.Analysis.Direction
import ImpliedKeys.Proofs.Schema.Resolution
import ImpliedKeys.Proofs.Schema.SharedLeads

/-!
# A new table

A table that is added under a new name changes no table that is there. It may take over a foreign
key that writes its name and meant a table of the referring namespace before, but between the old
tables no key is declared by that. So every pair that was proposed is still proposed, as long as the
leading words that were dropped may still be dropped. The pair is turned round only if the reverse
is new and has the smaller parent.
-/
namespace ImpliedKeys

variable {config : Config} {namer : Namer} {s : Schema} {t : Table} {r parent child : ColumnRef}

namespace Schema

theorem hasTable_addTable (key : String) : (s.addTable t).hasTable key = true ↔
    key = t.fullName ∨ s.hasTable key = true := by
  rw [hasTable_iff, hasTable_iff, table?_addTable]
  by_cases hkey : key = t.fullName <;> simp [hkey]

theorem tableCount_addTable (hnew : s.hasTable t.fullName = false) :
    (s.addTable t).tableCount = s.tableCount + 1 :=
  (entries_addTable_perm hnew).length_eq

/-- No table is stored under a new name. -/
theorem ne_of_hasTable_eq_false {key new : String} {u : Table} (hnew : s.hasTable new = false)
    (hu : s.table? key = some u) : key ≠ new := by
  rintro rfl
  have hstored : s.hasTable key = true := hasTable_iff.mpr ⟨u, hu⟩
  rw [hnew] at hstored
  cases hstored

theorem corresponds_addTable (hold : r.table ≠ t.fullName) :
    s.Corresponds (s.addTable t) r r where
  name_eq := rfl
  column?_eq := by
    unfold column?
    rw [table?_addTable, if_neg hold]
  core_eq := by
    rw [table?_addTable, if_neg hold]

/-- A written name that is resolved to an old table was resolved to it before. -/
theorem resolve?_of_addTable (hkeyed : s.WellKeyed) {u : Table} {written key : String}
    (hold : key ≠ t.fullName) (h : (s.addTable t).resolve? u written = some key) :
    s.resolve? u written = some key := by
  rw [hkeyed.addTable.resolve?_eq_some_iff] at h
  rw [hkeyed.resolve?_eq_some_iff]
  rcases h with ⟨hstored, rfl⟩ | ⟨hmissing, v, hv, hnames⟩
  · exact .inl ⟨((hasTable_addTable key).mp hstored).resolve_left hold, rfl⟩
  · rw [table?_addTable, if_neg hold] at hv
    refine .inr ⟨?_, v, hv, hnames⟩
    rw [← Bool.not_eq_true, hasTable_addTable, not_or] at hmissing
    exact Bool.eq_false_iff.mpr hmissing.2

theorem declares_of_addTable (hkeyed : s.WellKeyed) (hparent : parent.table ≠ t.fullName)
    (hchild : child.table ≠ t.fullName) (h : (s.addTable t).Declares parent child) :
    s.Declares parent child := by
  refine (corresponds_addTable hparent).symm.declares (corresponds_addTable hchild).symm h ?_
  intro u v columns written others hu hv hkey hresolved
  rw [table?_addTable, if_neg hchild, hv] at hu
  cases hu
  exact resolve?_of_addTable hkeyed hparent hresolved

end Schema

theorem Proposable.addTable (hkeyed : s.WellKeyed) (hnew : s.hasTable t.fullName = false)
    (hleads : ∀ lead ∈ sharedLeads s config.maxTablePrefixes,
      lead ∈ sharedLeads (s.addTable t) config.maxTablePrefixes)
    (h : Proposable config s parent child) : Proposable config (s.addTable t) parent child := by
  obtain ⟨u, hu, -⟩ := h.candidate
  obtain ⟨v, hv, -⟩ := h.hasChild
  have hparent := Schema.ne_of_hasTable_eq_false hnew hu
  have hchild := Schema.ne_of_hasTable_eq_false hnew hv
  have hdeclared := Schema.declares_of_addTable hkeyed hparent hchild
  have hreverse := Schema.declares_of_addTable hkeyed hchild hparent
  exact h.of_corresponds (Schema.corresponds_addTable hparent)
    (Schema.corresponds_addTable hchild) (mt hdeclared h.undeclared) (mt hreverse h.unreversed)
    id hleads

/-- With a new table each pair that was found is found again, or its reverse is, as long as the
leading words that were dropped are still dropped; its reverse only if that was not proposed before
and its parent is the smaller column. The words are still dropped if the limit lets none be dropped,
or if it does not bind. -/
theorem found_or_flipped_addTable (config : Config) (hkeyed : s.WellKeyed)
    (hnew : s.hasTable t.fullName = false) (hs : s.defect? = none)
    (hs' : (s.addTable t).defect? = none) :
    ((∀ lead ∈ sharedLeads s config.maxTablePrefixes,
        lead ∈ sharedLeads (s.addTable t) config.maxTablePrefixes) →
      ∃ found more, (analyze config namer s).outcome = .ok found ∧
        (analyze config namer (s.addTable t)).outcome = .ok more ∧
        ∀ a ∈ found.associations, (a ∈ more.associations ∨ a.flip ∈ more.associations) ∧
          (a.flip ∈ more.associations →
            a.flip ∉ proposedPairs config s ∧ compare a.child a.parent = .lt)) ∧
    (config.maxTablePrefixes = 0 ∨ (s.addTable t).LeadsWithin config.maxTablePrefixes →
      ∀ lead ∈ sharedLeads s config.maxTablePrefixes,
        lead ∈ sharedLeads (s.addTable t) config.maxTablePrefixes) := by
  constructor
  · intro hleads
    obtain ⟨found, hfound⟩ := exists_ok_of_sound config namer hs
    obtain ⟨more, hmore⟩ := exists_ok_of_sound config namer hs'
    have hproposed (b : Association) (hb : b ∈ proposedPairs config s) :
        b ∈ proposedPairs config (s.addTable t) := by
      rw [mem_proposals_iff_proposable hkeyed hs] at hb
      rw [mem_proposals_iff_proposable hkeyed.addTable hs']
      exact hb.addTable hkeyed hnew hleads
    refine ⟨found, more, hfound, hmore, fun a ha => ?_⟩
    obtain ⟨hmany, hkept⟩ := (mem_associations_of_ok hfound).mp ha
    have hmany' : 2 ≤ (s.addTable t).tableCount := by
      rw [Schema.tableCount_addTable hnew]
      exact Nat.le_succ_of_le hmany
    constructor
    · exact found_or_flip_found hmore hmany' (hproposed a (mem_keepOneDirection.mp hkept).1)
    · intro hflip
      exact new_and_lt_of_flip_kept hproposed hkept ((mem_associations_of_ok hmore).mp hflip).2
  · intro hlimit lead hlead
    rcases hlimit with hnone | hwithin
    · obtain ⟨ranking, -, htake⟩ := exists_ranking s
      rw [hnone, htake] at hlead
      cases hlead
    · exact hwithin.mem_sharedLeads_addTable hnew hlead

/-- Users name a profile by their key and profiles a user. The users' avatar is declared to be a
profile beside them. -/
def community : Schema := Schema.addTable (Schema.addTable { version := "1.0" }
  { schemaName := some "main", name := "app_profiles",
    columns := [{ name := "user_id", type := .integer none }],
    constraints := [.primaryKey ["user_id"]] })
  { schemaName := some "main", name := "users",
    columns := [{ name := "profile_id", type := .integer none },
      { name := "avatar_profile_id", type := .integer none }],
    constraints := [.primaryKey ["profile_id"],
      .foreignKey ["avatar_profile_id"] "app_profiles" ["user_id"]] }

def otherProfiles : Table where
  name := "app_profiles"
  columns := [{ name := "user_id", type := .integer none }]
  constraints := [.primaryKey ["user_id"]]

/-- The new table takes over the declared key and makes a leading word shared, by which the profiles
become the parent of the users. -/
theorem found_or_flipped_addTable_community :
    community.WellKeyed ∧ community.hasTable otherProfiles.fullName = false ∧
    community.defect? = none ∧ (community.addTable otherProfiles).defect? = none ∧
    (∀ lead ∈ sharedLeads community 5, lead ∈ sharedLeads (community.addTable otherProfiles) 5) ∧
    ∃ found more, (analyze {} .conventional community).outcome = .ok found ∧
      (analyze {} .conventional (community.addTable otherProfiles)).outcome = .ok more ∧
      ∀ a ∈ found.associations, (a ∈ more.associations ∨ a.flip ∈ more.associations) ∧
        (a.flip ∈ more.associations →
          a.flip ∉ proposedPairs {} community ∧ compare a.child a.parent = .lt) := by
  have hkeyed : community.WellKeyed := by decide +kernel
  have hnew : community.hasTable otherProfiles.fullName = false := by decide +kernel
  have hsound : community.defect? = none := by decide +kernel
  have hsound' : (community.addTable otherProfiles).defect? = none := by decide +kernel
  have hleads : ∀ lead ∈ sharedLeads community 5,
      lead ∈ sharedLeads (community.addTable otherProfiles) 5 := by decide +kernel
  exact ⟨hkeyed, hnew, hsound, hsound', hleads,
    (found_or_flipped_addTable {} hkeyed hnew hsound hsound').1 hleads⟩

example :
    ⟨⟨"main.users", "profile_id"⟩, ⟨"main.app_profiles", "user_id"⟩⟩ ∈ keptPairs {} community ∧
    ⟨⟨"main.app_profiles", "user_id"⟩, ⟨"main.users", "profile_id"⟩⟩ ∈
      keptPairs {} (community.addTable otherProfiles) := by decide +kernel

end ImpliedKeys
