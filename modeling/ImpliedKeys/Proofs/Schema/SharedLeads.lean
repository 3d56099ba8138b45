import ImpliedKeys.Proofs.Schema.Outline
import ImpliedKeys.Proofs.Schema.Ranking

/-!
# Shared leading words

The leading word lists that are dropped from table names are the first of one ranking of all lists
that two tables begin with. A further table may change the ranks but leaves every list shared, so
none is lost while the limit does not bind.
-/
namespace ImpliedKeys

open Identifier (Word)

variable {s : Schema} {t : Table} {limit : Nat} {lead : List Word}

/-- There is one ranking of the leading word lists that at least two tables have, of which each
limit takes the first. -/
theorem exists_ranking (s : Schema) : ∃ ranking : List (List Word),
    (∀ lead, lead ∈ ranking ↔ 2 ≤ (leadOccurrences s).count lead) ∧
      ∀ limit, sharedLeads s limit = ranking.take limit := by
  obtain ⟨ranking, hranks⟩ := s.exists_ranks
  refine ⟨ranking, fun lead => ?_, hranks.sharedLeads_eq_take⟩
  rw [hranks.mem_iff, Schema.count_leadOccurrences]

theorem two_le_count_of_mem_sharedLeads (h : lead ∈ sharedLeads s limit) :
    2 ≤ (leadOccurrences s).count lead := by
  obtain ⟨ranking, hmem, htake⟩ := exists_ranking s
  rw [htake] at h
  exact (hmem lead).mp (List.mem_of_mem_take h)

namespace Schema

/-- A limit does not bind: no greater one lets more leading word lists be dropped. -/
def LeadsWithin (s : Schema) (limit : Nat) : Prop :=
  ∀ greater, limit ≤ greater → sharedLeads s greater = sharedLeads s limit

theorem LeadsWithin.mem_sharedLeads_iff (h : s.LeadsWithin limit) :
    lead ∈ sharedLeads s limit ↔ 2 ≤ (leadOccurrences s).count lead := by
  obtain ⟨ranking, hmem, htake⟩ := exists_ranking s
  rw [← h (max limit ranking.length) (Nat.le_max_left ..), htake,
    List.take_of_length_le (Nat.le_max_right ..), hmem]

theorem leadOccurrences_addTable (hnew : s.hasTable t.fullName = false) :
    (leadOccurrences (s.addTable t)).Perm
      (leadingParts (Identifier.words t.name) ++ leadOccurrences s) := by
  have hvalues : (s.addTable t).tables.values.Perm (t :: s.tables.values) :=
    (entries_addTable_perm hnew).map Prod.snd
  exact hvalues.flatMap_right _

/-- Where the limit does not bind, a further table leaves every shared lead shared. -/
theorem LeadsWithin.mem_sharedLeads_addTable (h : (s.addTable t).LeadsWithin limit)
    (hnew : s.hasTable t.fullName = false) (hlead : lead ∈ sharedLeads s limit) :
    lead ∈ sharedLeads (s.addTable t) limit := by
  have hcount := two_le_count_of_mem_sharedLeads hlead
  rw [h.mem_sharedLeads_iff, (leadOccurrences_addTable hnew).count_eq, List.count_append]
  exact Nat.le_add_left_of_le hcount

end Schema

end ImpliedKeys
