import ImpliedKeys.Proofs.Analysis.Findings

/-!
# The direction filter

Of two proposals that are each other's reverse one is dropped, so what is kept depends on the whole
list, though only on which pairs are in it. Of two columns that are proposed in some direction one
direction stays, with all its occurrences and in its place.

Dropping proposals together with their reverses never turns a pair round: what is kept is what was
kept, without them. More proposals may turn a kept pair round, but only into a pair that was not
proposed before and has the smaller parent.
-/
namespace ImpliedKeys

variable {all more : List Association} {a : Association}

/-- A condition that a pair shares with its reverse may be put before the filter or after it. -/
theorem mem_keepOneDirection_iff_of_flip {fewer : List Association} {p : Association → Prop}
    (hflip : ∀ a, p a.flip ↔ p a) (hfewer : ∀ a, a ∈ fewer ↔ a ∈ all ∧ p a) :
    a ∈ keepOneDirection fewer ↔ a ∈ keepOneDirection all ∧ p a := by
  rw [mem_keepOneDirection, mem_keepOneDirection, hfewer, hfewer, hflip]
  constructor
  · intro hkept
    obtain ⟨⟨ha, hp⟩, hfirst⟩ := hkept
    exact ⟨⟨ha, fun hreverse => hfirst ⟨hreverse, hp⟩⟩, hp⟩
  · intro hkept
    obtain ⟨⟨ha, hfirst⟩, hp⟩ := hkept
    exact ⟨⟨ha, hp⟩, fun hreverse => hfirst hreverse.1⟩

theorem compare_flip_of_not_lt {p q : ColumnRef} (hne : p ≠ q) (h : compare p q ≠ .lt) :
    compare q p = .lt := by
  have hswap : compare q p = (compare p q).swap := Std.OrientedCmp.eq_swap
  rw [hswap]
  cases hc : compare p q with
  | lt => exact absurd hc h
  | eq => exact absurd (Std.LawfulEqOrd.eq_of_compare hc) hne
  | gt => rfl

/-- A proposal of two columns is kept, or its reverse is. -/
theorem kept_or_flip_kept (ha : a ∈ all) (hne : a.parent ≠ a.child) :
    a ∈ keepOneDirection all ∨ a.flip ∈ keepOneDirection all := by
  by_cases hlt : compare a.parent a.child = .lt
  · exact .inl (mem_keepOneDirection.mpr ⟨ha, fun _ => hlt⟩)
  · by_cases hflip : a.flip ∈ all
    · exact .inr (mem_keepOneDirection.mpr ⟨hflip, fun _ => compare_flip_of_not_lt hne hlt⟩)
    · exact .inl (mem_keepOneDirection.mpr ⟨ha, fun hreverse => absurd hreverse hflip⟩)

theorem kept_iff_flip_not_kept (hdistinct : ∀ a ∈ all, a.parent ≠ a.child)
    (h : a ∈ all ∨ a.flip ∈ all) :
    a ∈ keepOneDirection all ↔ a.flip ∉ keepOneDirection all := by
  have hone : a ∈ keepOneDirection all ∨ a.flip ∈ keepOneDirection all := by
    rcases h with ha | hflip
    · exact kept_or_flip_kept ha (hdistinct a ha)
    · exact (kept_or_flip_kept hflip (hdistinct _ hflip)).symm
  exact ⟨flip_not_mem_keepOneDirection, hone.resolve_right⟩

/-- What is kept has no reverse pairs any more. -/
theorem keepOneDirection_keepOneDirection (all : List Association) :
    keepOneDirection (keepOneDirection all) = keepOneDirection all := by
  refine List.filter_eq_self.mpr fun a ha => ?_
  simp [staysAmong, flip_not_mem_keepOneDirection ha]

/-- Which pairs are kept depends on which pairs are proposed, and not on their order or number. -/
theorem mem_keepOneDirection_congr {other : List Association} (h : ∀ a, a ∈ other ↔ a ∈ all) :
    a ∈ keepOneDirection other ↔ a ∈ keepOneDirection all := by
  rw [mem_keepOneDirection, mem_keepOneDirection, h, h]

theorem count_keepOneDirection (ha : a ∈ keepOneDirection all) :
    (keepOneDirection all).count a = all.count a :=
  List.count_filter (List.mem_filter.mp ha).2

/-- If no proposal joins a column with itself, one direction of each connection stays: the only one
that is proposed, or of two the one with the smaller parent. The others are taken out of the list and
the rest is left as it is. -/
theorem one_direction_stays (hdistinct : ∀ a ∈ all, a.parent ≠ a.child) :
    (keepOneDirection all).Sublist all ∧
    (∀ a ∈ keepOneDirection all, (keepOneDirection all).count a = all.count a) ∧
    (∀ a : Association, a ∈ all ∨ a.flip ∈ all →
      (a ∈ keepOneDirection all ↔ a.flip ∉ keepOneDirection all)) ∧
    (∀ a : Association, a ∈ keepOneDirection all ↔ a ∈ all ∧ (a.flip ∈ all →
      a.parent.table < a.child.table ∨
        a.parent.table = a.child.table ∧ a.parent.column < a.child.column)) ∧
    keepOneDirection (keepOneDirection all) = keepOneDirection all ∧
    ∀ other, (∀ a, a ∈ other ↔ a ∈ all) →
      ∀ a, a ∈ keepOneDirection other ↔ a ∈ keepOneDirection all := by
  refine ⟨List.filter_sublist, fun a ha => count_keepOneDirection ha,
    fun a h => kept_iff_flip_not_kept hdistinct h, fun a => ?_,
    keepOneDirection_keepOneDirection all, fun other h a => mem_keepOneDirection_congr h⟩
  rw [mem_keepOneDirection, ColumnRef.compare_eq_lt_iff]

/-- Accounts and their settings have one key, and each is proposed for the other; orders name an
account. -/
def accountProposals : List Association :=
  [⟨⟨"accounts", "account_id"⟩, ⟨"account_settings", "account_id"⟩⟩,
    ⟨⟨"accounts", "account_id"⟩, ⟨"orders", "account_id"⟩⟩,
    ⟨⟨"account_settings", "account_id"⟩, ⟨"accounts", "account_id"⟩⟩,
    ⟨⟨"accounts", "account_id"⟩, ⟨"orders", "account_id"⟩⟩]

/-- Settings come before accounts, so the first proposal goes, and the repeated one stays twice. -/
theorem one_direction_stays_accounts :
    (∀ a ∈ accountProposals, a.parent ≠ a.child) ∧
    keepOneDirection accountProposals =
      [⟨⟨"accounts", "account_id"⟩, ⟨"orders", "account_id"⟩⟩,
        ⟨⟨"account_settings", "account_id"⟩, ⟨"accounts", "account_id"⟩⟩,
        ⟨⟨"accounts", "account_id"⟩, ⟨"orders", "account_id"⟩⟩] ∧
    (keepOneDirection accountProposals).Sublist accountProposals ∧
    (⟨⟨"accounts", "account_id"⟩, ⟨"account_settings", "account_id"⟩⟩ ∉
      keepOneDirection accountProposals) ∧
    keepOneDirection (keepOneDirection accountProposals) = keepOneDirection accountProposals ∧
    ∀ a, a ∈ keepOneDirection accountProposals.reverse ↔ a ∈ keepOneDirection accountProposals := by
  have hdistinct : ∀ a ∈ accountProposals, a.parent ≠ a.child := by decide
  have hkept : keepOneDirection accountProposals =
      [⟨⟨"accounts", "account_id"⟩, ⟨"orders", "account_id"⟩⟩,
        ⟨⟨"account_settings", "account_id"⟩, ⟨"accounts", "account_id"⟩⟩,
        ⟨⟨"accounts", "account_id"⟩, ⟨"orders", "account_id"⟩⟩] := by decide +kernel
  obtain ⟨hsublist, -, hone, -, hagain, hsame⟩ := one_direction_stays hdistinct
  refine ⟨hdistinct, hkept, hsublist, ?_, hagain, hsame _ fun a => List.mem_reverse⟩
  refine (hone ⟨⟨"account_settings", "account_id"⟩, ⟨"accounts", "account_id"⟩⟩
    (.inl (by decide))).mp ?_
  rw [hkept]
  decide

/-- An analysis of two tables or more finds each proposed pair, or its reverse. -/
theorem found_or_flip_found {config : Config} {namer : Namer} {s : Schema} {found : Findings}
    (h : (analyze config namer s).outcome = .ok found) (hmany : 2 ≤ s.tableCount)
    (ha : a ∈ proposedPairs config s) : a ∈ found.associations ∨ a.flip ∈ found.associations := by
  have hdistinct : a.parent ≠ a.child := (mem_proposals.mp ha).2.distinct
  rw [mem_associations_of_ok h, mem_associations_of_ok h]
  exact (kept_or_flip_kept ha hdistinct).imp (⟨hmany, ·⟩) (⟨hmany, ·⟩)

/-- Among more proposals only a new pair with the smaller parent takes the place of a kept one. -/
theorem new_and_lt_of_flip_kept (hsub : ∀ b ∈ all, b ∈ more) (ha : a ∈ keepOneDirection all)
    (hflip : a.flip ∈ keepOneDirection more) :
    a.flip ∉ all ∧ compare a.child a.parent = .lt := by
  obtain ⟨hproposed, hfirst⟩ := mem_keepOneDirection.mp ha
  have hlt : compare a.child a.parent = .lt :=
    (mem_keepOneDirection.mp hflip).2 (hsub a hproposed)
  -- had the reverse been there before, it would have been kept then too
  refine ⟨fun hreverse => ?_, hlt⟩
  exact flip_not_mem_keepOneDirection ha (mem_keepOneDirection.mpr ⟨hreverse, fun _ => hlt⟩)

end ImpliedKeys
