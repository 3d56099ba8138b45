import ImpliedKeys.Proofs.Analysis.Findings
import ImpliedKeys.Proofs.Schema.Resolution

/-!
# The order in which pairs are found

The pairs of a well-keyed schema are found by the keys of their parents' tables, in one table by its
candidates, and for one parent by their children. This order puts no pair before itself, so none is
found twice. The log tells of each reported pair once, in this order, under the name of the key that
holds it.
-/
namespace ImpliedKeys

variable {config : Config} {namer : Namer} {s : Schema} {t : Table} {a b : Association}

/-- One pair is found before another: the key of its parent's table is smaller, or its parent is an
earlier candidate of the same table, or it has the same parent and a smaller child. -/
def FoundBefore (config : Config) (s : Schema) (a b : Association) : Prop :=
  compare a.parent.table b.parent.table = .lt ∨
    a.parent.table = b.parent.table ∧ ∃ t, s.table? a.parent.table = some t ∧
      ((candidates config.useUniqueKeys t).idxOf a.parent <
          (candidates config.useUniqueKeys t).idxOf b.parent ∨
        a.parent = b.parent ∧ compare a.child b.child = .lt)

namespace FoundBefore

theorem irrefl (a : Association) : ¬ FoundBefore config s a a := by
  intro h
  rcases h with htable | ⟨-, t, -, hcandidate | ⟨-, hchild⟩⟩
  · simp [Std.ReflCmp.compare_self] at htable
  · exact Nat.lt_irrefl _ hcandidate
  · simp [Std.ReflCmp.compare_self] at hchild

theorem nodup {l : List Association} (h : l.Pairwise (FoundBefore config s)) : l.Nodup :=
  h.imp fun {a b} hab (he : a = b) => irrefl b (he ▸ hab)

end FoundBefore

/-- Of two candidates the earlier one has the smaller place. -/
theorem pairwise_candidates (useUniqueKeys : Bool) (t : Table) :
    (candidates useUniqueKeys t).Pairwise fun c d =>
      (candidates useUniqueKeys t).idxOf c < (candidates useUniqueKeys t).idxOf d := by
  have hnodup := nodup_candidates useUniqueKeys t
  refine List.pairwise_iff_getElem.mpr fun i j hi hj hij => ?_
  rwa [hnodup.idxOf_getElem i hi, hnodup.idxOf_getElem j hj]

/-- The tables of a well-keyed schema come in the order of their qualified names. -/
theorem Schema.WellKeyed.increasing_fullNames (hkeyed : s.WellKeyed) :
    s.tables.values.Pairwise fun t u => compare t.fullName u.fullName = .lt := by
  refine List.pairwise_map.mpr ((List.pairwise_map.mp s.tables.increasing).imp_of_mem ?_)
  intro e f he hf hlt
  rwa [← hkeyed e he, ← hkeyed f hf]

theorem parent_eq_of_mem_proposalsOf {l : Lookup} {candidate : ColumnRef}
    (h : a ∈ proposalsOf config s l t candidate) : a.parent = candidate := by
  obtain ⟨child, -, rfl⟩ := List.mem_map.mp h
  rfl

/-- The pairs of one candidate are found in the order of their children. -/
theorem pairwise_child_proposalsOf (l : Lookup) (candidate : ColumnRef) :
    (proposalsOf config s l t candidate).Pairwise fun a b => compare a.child b.child = .lt :=
  List.pairwise_map.mpr ((l.matching t candidate).increasing.filter _)

/-- The pairs of one table are found candidate by candidate. -/
theorem pairwise_proposals_table (hstored : s.table? t.fullName = some t) (l : Lookup) :
    ((candidates config.useUniqueKeys t).flatMap (proposalsOf config s l t)).Pairwise
      (FoundBefore config s) := by
  have htable {c : ColumnRef} (hc : c ∈ candidates config.useUniqueKeys t) : c.table = t.fullName :=
    (mem_candidates.mp hc).1
  refine List.pairwise_flatMap.mpr ⟨fun c hc => ?_, ?_⟩
  · refine (pairwise_child_proposalsOf l c).imp_of_mem fun {a b} ha hb hchild => ?_
    have hparent : a.parent = b.parent :=
      (parent_eq_of_mem_proposalsOf ha).trans (parent_eq_of_mem_proposalsOf hb).symm
    refine .inr ⟨congrArg ColumnRef.table hparent, t, ?_, .inr ⟨hparent, hchild⟩⟩
    rw [parent_eq_of_mem_proposalsOf ha, htable hc, hstored]
  · refine (pairwise_candidates config.useUniqueKeys t).imp_of_mem fun {c d} hc hd hcd a ha b hb => ?_
    obtain rfl := parent_eq_of_mem_proposalsOf ha
    obtain rfl := parent_eq_of_mem_proposalsOf hb
    exact .inr ⟨(htable hc).trans (htable hd).symm, t, by rw [htable hc, hstored], .inl hcd⟩

/-- All proposals are found table by table. -/
theorem pairwise_proposals (hkeyed : s.WellKeyed) (l : Lookup) :
    (proposals config s l).Pairwise (FoundBefore config s) := by
  refine List.pairwise_flatMap.mpr ⟨fun t ht => ?_, ?_⟩
  · obtain ⟨key, hkey⟩ := NameMap.mem_values_iff.mp ht
    exact pairwise_proposals_table (hkeyed.table?_fullName hkey) l
  · refine hkeyed.increasing_fullNames.imp fun {t u} htu a ha b hb => .inl ?_
    have htable {v : Table} {e : Association}
        (he : e ∈ (candidates config.useUniqueKeys v).flatMap (proposalsOf config s l v)) :
        e.parent.table = v.fullName := by
      obtain ⟨c, hc, hproposed⟩ := List.mem_flatMap.mp he
      rw [parent_eq_of_mem_proposalsOf hproposed]
      exact (mem_candidates.mp hc).1
    rwa [htable ha, htable hb]

/-- The filter of directions keeps the order. -/
theorem pairwise_keptPairs (config : Config) (hkeyed : s.WellKeyed) :
    (keptPairs config s).Pairwise (FoundBefore config s) :=
  (pairwise_proposals hkeyed _).filter _

theorem exists_candidate_of_mem_keptPairs (hkeyed : s.WellKeyed) (h : a ∈ keptPairs config s) :
    ∃ t, s.table? a.parent.table = some t ∧ a.parent ∈ candidates config.useUniqueKeys t := by
  obtain ⟨⟨key, t, ht, htable, hparent, -⟩, -⟩ := mem_proposals.mp (mem_keepOneDirection.mp h).1
  refine ⟨t, ?_, mem_candidates.mpr ⟨htable, hparent⟩⟩
  rw [htable]
  exact hkeyed.table?_fullName ht

/-- An event that tells of a pair. -/
def Event.isFound : Event → Bool
  | found _ _ => true
  | _ => false

theorem filter_isFound_map_eq_nil {α : Type} {f : α → Event} (h : ∀ x, (f x).isFound = false)
    (l : List α) : (l.map f).filter Event.isFound = [] := by
  simp [List.filter_eq_nil_iff, h]

/-- An analysis of two tables or more tells the log of each pair that is kept. -/
theorem filter_isFound_log (config : Config) (namer : Namer) (hs : s.defect? = none)
    (hmany : 2 ≤ s.tableCount) :
    (analyze config namer s).log.filter Event.isFound =
      (keptPairs config s).map fun a => .found (namer a.parent a.child) a.text := by
  have hkept : ((keptPairs config s).map fun a => Event.found (namer a.parent a.child) a.text).filter
      Event.isFound = (keptPairs config s).map fun a => .found (namer a.parent a.child) a.text := by
    simp [List.filter_eq_self, Event.isFound]
  have hlog (found : Findings) : (runLog config namer s found).filter Event.isFound =
      (keptPairs config s).map fun a => .found (namer a.parent a.child) a.text := by
    unfold runLog
    simp only [List.filter_append]
    rw [filter_isFound_map_eq_nil fun _ => rfl, filter_isFound_map_eq_nil fun _ => rfl]
    exact (List.append_nil _).trans hkept
  unfold analyze
  rw [hs]
  simp only [if_neg (Nat.not_lt.mpr hmany)]
  exact hlog _

/-- The pairs of a well-keyed schema without a defect that has two tables or more are found once each,
by table, candidate and child. The log tells of them in this order, each under the name of the only
key that holds it, and they are the pairs of the findings. -/
theorem found_once_in_order (config : Config) (namer : Namer) (hkeyed : s.WellKeyed)
    (hs : s.defect? = none) (hmany : 2 ≤ s.tableCount) :
    (keptPairs config s).Nodup ∧
    (∀ a ∈ keptPairs config s, ∃ t, s.table? a.parent.table = some t ∧
      a.parent ∈ candidates config.useUniqueKeys t) ∧
    (keptPairs config s).Pairwise (FoundBefore config s) ∧
    ∃ found, (analyze config namer s).outcome = .ok found ∧
      (analyze config namer s).log.filter Event.isFound =
        (keptPairs config s).map (fun a => .found (namer a.parent a.child) a.text) ∧
      (keptPairs config s).Perm found.associations ∧
      (∀ a ∈ keptPairs config s, ∃ k ∈ found.keys, k.name = namer a.parent a.child ∧
        a ∈ k.pairs ∧ ∀ j ∈ found.keys, a ∈ j.pairs → j = k) ∧
      ((analyze config namer s).log.filter Event.isFound).length = found.associations.length := by
  obtain ⟨found, hok⟩ := exists_ok_of_sound config namer hs
  have hgroups := (groups_and_gains_of_ok hok).1
  have hordered := pairwise_keptPairs config hkeyed
  have hnodup := FoundBefore.nodup hordered
  have hperm : (keptPairs config s).Perm found.associations := by
    refine (List.perm_ext_iff_of_nodup hnodup hgroups.nodup_associations).mpr fun a => ?_
    rw [mem_associations_of_ok hok, and_iff_right hmany]
  have hevents := filter_isFound_log config namer hs hmany
  refine ⟨hnodup, fun a ha => exists_candidate_of_mem_keptPairs hkeyed ha, hordered, found, hok,
    hevents, hperm, fun a ha => ?_, ?_⟩
  · obtain ⟨k, hk, hak⟩ := Findings.mem_associations.mp (hperm.mem_iff.mp ha)
    refine ⟨k, hk, ((hgroups.mem_pairs k hk a).mp hak).2.symm, hak, fun j hj haj => ?_⟩
    exact hgroups.eq_of_mem_pairs hj hk haj hak
  · rw [hevents, List.length_map, hperm.length_eq]

/-- Bookings are known by room and guest, and invoices name both. -/
def hotel : Schema :=
  let columns : List Column :=
    [{ name := "guest_id", type := .integer none }, { name := "room_id", type := .integer none }]
  Schema.addTable (Schema.addTable { version := "1.0" } { name := "invoices", columns })
    { name := "bookings", columns, constraints := [.primaryKey ["room_id", "guest_id"]] }

/-- The rooms are found first, as the primary key has them, and each pair is told of once. -/
theorem found_once_in_order_hotel :
    hotel.WellKeyed ∧ hotel.defect? = none ∧ 2 ≤ hotel.tableCount ∧ (keptPairs {} hotel).Nodup ∧
    ∃ found, (analyze {} .conventional hotel).outcome = .ok found ∧
      (analyze {} .conventional hotel).log.filter Event.isFound =
        [.found "fk_invoices_room_id_bookings" "bookings.room_id <- invoices.room_id",
          .found "fk_invoices_guest_id_bookings" "bookings.guest_id <- invoices.guest_id"] ∧
      found.associations.length = 2 := by
  have hkeyed : hotel.WellKeyed := by decide +kernel
  have hs : hotel.defect? = none := by decide +kernel
  have hmany : 2 ≤ hotel.tableCount := by decide +kernel
  obtain ⟨hnodup, -, -, found, hok, hevents, hperm, -, -⟩ :=
    found_once_in_order {} .conventional hkeyed hs hmany
  refine ⟨hkeyed, hs, hmany, hnodup, found, hok, ?_, ?_⟩
  · rw [hevents]
    decide +kernel
  · rw [← hperm.length_eq]
    decide +kernel

end ImpliedKeys
