import ImpliedKeys.Proofs.Analysis.Direction
import ImpliedKeys.Proofs.Analysis.Findings

/-!
# More permissive settings

When unique columns may be referred to as well, or more shared leading words may be dropped from
table names, every pair that was proposed is still proposed. So no two columns that were associated
are separated. Their association is turned round only if the reverse pair is new and has the smaller
parent.
-/
namespace ImpliedKeys

open Identifier (MatchKey Word)

variable {config wider : Config} {namer : Namer} {s : Schema} {a : Association}

/-- Settings that let at least as many columns be parents and drop at least as many leading word
lists, and are otherwise the same. -/
structure Config.Widens (config wider : Config) : Prop where
  useUniqueKeys : config.useUniqueKeys = true → wider.useUniqueKeys = true
  maxTablePrefixes : config.maxTablePrefixes ≤ wider.maxTablePrefixes
  checkColumnTypes : config.checkColumnTypes = wider.checkColumnTypes
  allowSelfAssociations : config.allowSelfAssociations = wider.allowSelfAssociations

theorem mem_sharedLeads_of_le {n m : Nat} (h : n ≤ m) {lead : List Word}
    (hlead : lead ∈ sharedLeads s n) : lead ∈ sharedLeads s m := by
  unfold sharedLeads at hlead ⊢
  obtain ⟨shared, hshared, rfl⟩ := List.mem_map.mp hlead
  exact List.mem_map_of_mem ((List.take_prefix_take_left h).subset hshared)

namespace Config.Widens

theorem mayBeParent (h : config.Widens wider) {t : Table} {column : String}
    (hparent : t.MayBeParent config column) : t.MayBeParent wider column := by
  rcases hparent with hkey | ⟨huse, hunique⟩
  · exact .inl hkey
  · exact .inr ⟨h.useUniqueKeys huse, hunique⟩

theorem mem_soughtKeys (h : config.Widens wider) {t : Table} {parent : ColumnRef} {k : MatchKey}
    (hk : k ∈ (Lookup.ofSchema config s).soughtKeys t parent) :
    k ∈ (Lookup.ofSchema wider s).soughtKeys t parent := by
  rw [Lookup.mem_soughtKeys] at hk ⊢
  rcases hk with hown | ⟨hprimary, u, hu, htable⟩
  · exact .inl hown
  · refine .inr ⟨hprimary, u, hu, Identifier.mem_tableKeys_of_subset (fun lead hlead => ?_) htable⟩
    exact mem_sharedLeads_of_le h.maxTablePrefixes hlead

theorem admissible (h : config.Widens wider) {parent child : ColumnRef}
    (ha : Admissible config s parent child) : Admissible wider s parent child :=
  { ha with
    apart := fun hrefused => ha.apart (h.allowSelfAssociations.trans hrefused)
    comparable := fun hchecked => ha.comparable (h.checkColumnTypes.trans hchecked) }

theorem mem_proposedPairs (h : config.Widens wider) (ha : a ∈ proposedPairs config s) :
    a ∈ proposedPairs wider s := by
  rw [mem_proposals] at ha ⊢
  obtain ⟨⟨key, t, ht, htable, hparent, hmatch⟩, hadmissible⟩ := ha
  obtain ⟨hchild, k, hk, hsought⟩ := Lookup.mem_matching.mp hmatch
  have hmatch : a.child ∈ (Lookup.ofSchema wider s).matching t a.parent :=
    Lookup.mem_matching.mpr ⟨hchild, k, hk, h.mem_soughtKeys hsought⟩
  exact ⟨⟨key, t, ht, htable, h.mayBeParent hparent, hmatch⟩, h.admissible hadmissible⟩

end Config.Widens

/-- Under more permissive settings each pair that was found is found again, or its reverse is; its
reverse only if that was not proposed before and its parent is the smaller column. -/
theorem found_or_flipped_of_widens (h : config.Widens wider) (hs : s.defect? = none) :
    ∃ found more, (analyze config namer s).outcome = .ok found ∧
      (analyze wider namer s).outcome = .ok more ∧
      ∀ a ∈ found.associations, (a ∈ more.associations ∨ a.flip ∈ more.associations) ∧
        (a.flip ∈ more.associations →
          a.flip ∉ proposedPairs config s ∧ compare a.child a.parent = .lt) := by
  obtain ⟨found, hfound⟩ := exists_ok_of_sound config namer hs
  obtain ⟨more, hmore⟩ := exists_ok_of_sound wider namer hs
  refine ⟨found, more, hfound, hmore, fun a ha => ?_⟩
  rw [(groups_and_gains_of_ok hfound).1.mem_associations, mem_reportedPairs] at ha
  rw [(groups_and_gains_of_ok hmore).1.mem_associations,
    (groups_and_gains_of_ok hmore).1.mem_associations, mem_reportedPairs, mem_reportedPairs]
  obtain ⟨hmany, hkept⟩ := ha
  have hproposed : a ∈ proposedPairs wider s :=
    h.mem_proposedPairs (mem_keepOneDirection.mp hkept).1
  have hne : a.parent ≠ a.child := (admissible_of_mem_keptPairs hkept).distinct
  constructor
  · exact (kept_or_flip_kept hproposed hne).imp (⟨hmany, ·⟩) (⟨hmany, ·⟩)
  · intro hflip
    exact new_and_lt_of_flip_kept (fun b hb => h.mem_proposedPairs hb) hkept hflip.2

/-- Orders and deliveries share a number that is the key of the one and unique in the other. -/
def depot : Schema := Schema.addTable (Schema.addTable { version := "1.0" }
  { name := "sales_orders", columns := [{ name := "order_id", type := .integer none }],
    constraints := [.primaryKey ["order_id"]] })
  { name := "deliveries",
    columns := [{ name := "id", type := .integer none },
      { name := "order_id", type := .integer none }],
    constraints := [.primaryKey ["id"], .unique ["order_id"]] }

/-- Once unique columns count, the deliveries become the parent of the orders. -/
theorem found_or_flipped_of_widens_depot :
    Config.Widens { useUniqueKeys := false } {} ∧ depot.defect? = none ∧
    ∃ found more, (analyze { useUniqueKeys := false } .conventional depot).outcome = .ok found ∧
      (analyze {} .conventional depot).outcome = .ok more ∧
      ∀ a ∈ found.associations, (a ∈ more.associations ∨ a.flip ∈ more.associations) ∧
        (a.flip ∈ more.associations →
          a.flip ∉ proposedPairs { useUniqueKeys := false } depot ∧
            compare a.child a.parent = .lt) := by
  have hwidens : Config.Widens { useUniqueKeys := false } {} := ⟨nofun, Nat.le_refl _, rfl, rfl⟩
  have hsound : depot.defect? = none := by decide +kernel
  exact ⟨hwidens, hsound, found_or_flipped_of_widens hwidens hsound⟩

example : keptPairs { useUniqueKeys := false } depot =
      [⟨⟨"sales_orders", "order_id"⟩, ⟨"deliveries", "order_id"⟩⟩] ∧
    keptPairs {} depot = [⟨⟨"deliveries", "order_id"⟩, ⟨"sales_orders", "order_id"⟩⟩] := by
  decide +kernel

end ImpliedKeys
