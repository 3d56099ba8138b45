import Mathlib.Data.Nat.Find
import ImpliedKeys.Analysis.Index

/-!
# The ranking of shared leading words

The leading word lists that may be dropped from table names are the first of one ranking: all lists
with which two tables begin, those of more tables first and else in their own order. No order in
which they are counted and listed makes a difference. A list that is ranked has every shorter one
that it begins with ranked before it, so no limit parts them.
-/
namespace ImpliedKeys

open Identifier (Word)

/-- A word list begins with another, which is not empty, and goes on after it. -/
structure IsLead (lead ws : List Word) : Prop where
  ne_nil : lead ≠ []
  begins : lead <+: ws
  length_lt : lead.length < ws.length

variable {s : Schema} {lead part ws : List Word} {ranking : List (List Word)}

namespace IsLead

instance decidable (lead ws : List Word) : Decidable (IsLead lead ws) :=
  decidable_of_iff (lead ≠ [] ∧ lead <+: ws ∧ lead.length < ws.length)
    ⟨fun h => ⟨h.1, h.2.1, h.2.2⟩, fun h => ⟨h.ne_nil, h.begins, h.length_lt⟩⟩

theorem trans (hpart : IsLead part lead) (hlead : IsLead lead ws) : IsLead part ws where
  ne_nil := hpart.ne_nil
  begins := hpart.begins.trans hlead.begins
  length_lt := Nat.lt_trans hpart.length_lt hlead.length_lt

theorem take {n : Nat} (hpos : 1 ≤ n) (hn : n < ws.length) : IsLead (ws.take n) ws where
  ne_nil := List.ne_nil_of_length_pos (by rw [List.length_take]; omega)
  begins := List.take_prefix n ws
  length_lt := by rw [List.length_take]; omega

theorem take_take {m n : Nat} (hpos : 1 ≤ n) (hn : n < m) (hm : m ≤ ws.length) :
    IsLead (ws.take n) (ws.take m) where
  ne_nil := List.ne_nil_of_length_pos (by rw [List.length_take]; omega)
  begins := List.take_prefix_take_left (by omega)
  length_lt := by rw [List.length_take, List.length_take]; omega

theorem eq_take (h : IsLead lead ws) : lead = ws.take lead.length :=
  List.prefix_iff_eq_take.mp h.begins

/-- What a list begins with comes before it in the order of the words. -/
theorem compare_lt (h : IsLead part lead) : compare part lead = .lt := by
  obtain ⟨rest, hrest⟩ := h.begins
  have hne : rest ≠ [] := by
    intro hnil
    have hlength := h.length_lt
    rw [← hrest, hnil, List.append_nil] at hlength
    omega
  subst hrest
  clear h
  show List.compareLex compare part (part ++ rest) = .lt
  induction part with
  | nil =>
    cases rest with
    | nil => exact absurd rfl hne
    | cons w rest => rfl
  | cons w part ih =>
    have hself : compare w w = .eq := Std.ReflCmp.compare_self
    rw [List.cons_append, List.compareLex_cons_cons, hself, ih]
    rfl

end IsLead

theorem mem_leadingParts : lead ∈ leadingParts ws ↔ IsLead lead ws := by
  simp only [leadingParts, List.mem_map, List.mem_range]
  constructor
  · intro hlisted
    obtain ⟨n, hn, rfl⟩ := hlisted
    exact .take (by omega) (by omega)
  · intro hlead
    have hpos : 0 < lead.length := List.length_pos_iff.mpr hlead.ne_nil
    have hlength := hlead.length_lt
    refine ⟨lead.length - 1, by omega, ?_⟩
    rw [Nat.sub_add_cancel hpos]
    exact hlead.eq_take.symm

/-- The leading parts of a list differ in their lengths. -/
theorem nodup_leadingParts (ws : List Word) : (leadingParts ws).Nodup := by
  refine List.pairwise_map.mpr (List.pairwise_lt_range.imp_of_mem ?_)
  intro i j hi hj hij heq
  have hlength := congrArg List.length heq
  rw [List.mem_range] at hi hj
  rw [List.length_take, List.length_take] at hlength
  omega

namespace Schema

/-- How many tables have a name that begins with a word list and goes on after it. -/
def sharers (s : Schema) (lead : List Word) : Nat :=
  s.tables.values.countP fun t => IsLead lead (Identifier.words t.name)

/-- A leading word list occurs once for each table that has it. -/
theorem count_leadOccurrences (s : Schema) (lead : List Word) :
    (leadOccurrences s).count lead = s.sharers lead := by
  unfold leadOccurrences sharers
  induction s.tables.values with
  | nil => rfl
  | cons t ts ih =>
    rw [List.flatMap_cons, List.count_append, List.countP_cons, ih,
      (nodup_leadingParts _).count, Nat.add_comm]
    simp only [mem_leadingParts, decide_eq_true_eq]

/-- More tables have the part than have the whole. -/
theorem sharers_le_of_isLead (h : IsLead part lead) : s.sharers lead ≤ s.sharers part := by
  apply List.countP_mono_left
  intro t _ hlead
  rw [decide_eq_true_eq] at hlead ⊢
  exact h.trans hlead

/-- The order of the ranking: more tables first, and among equals the order of the words. -/
def RanksBefore (s : Schema) (a b : List Word) : Prop :=
  s.sharers b < s.sharers a ∨ s.sharers a = s.sharers b ∧ compare a b = .lt

theorem ranksBefore_of_isLead (h : IsLead part lead) : s.RanksBefore part lead := by
  rcases Nat.lt_or_eq_of_le (sharers_le_of_isLead (s := s) h) with hmore | hequal
  · exact .inl hmore
  · exact .inr ⟨hequal.symm, h.compare_lt⟩

theorem RanksBefore.asymm {a b : List Word} (h : s.RanksBefore a b) : ¬ s.RanksBefore b a := by
  intro hback
  unfold RanksBefore at h hback
  by_cases hequal : s.sharers a = s.sharers b
  · have hlt : compare a b = .lt := (h.resolve_left (by omega)).2
    have hgt : compare b a = .lt := (hback.resolve_left (by omega)).2
    rw [Std.OrientedCmp.gt_of_lt hlt] at hgt
    cases hgt
  · omega

/-- A ranking lists the word lists with which at least two tables begin, in the order of ranks. -/
structure Ranks (s : Schema) (ranking : List (List Word)) : Prop where
  mem_iff : ∀ lead, lead ∈ ranking ↔ 2 ≤ s.sharers lead
  ordered : ranking.Pairwise s.RanksBefore

namespace Ranks

theorem nodup (h : s.Ranks ranking) : ranking.Nodup :=
  h.ordered.imp fun {a b} hbefore heq => hbefore.asymm (by rw [heq] at hbefore ⊢; exact hbefore)

theorem unique {other : List (List Word)} (h : s.Ranks ranking) (hother : s.Ranks other) :
    ranking = other := by
  have hperm : ranking.Perm other := by
    rw [List.perm_ext_iff_of_nodup h.nodup hother.nodup]
    intro lead
    rw [h.mem_iff, hother.mem_iff]
  refine hperm.eq_of_pairwise ?_ h.ordered hother.ordered
  intro a b _ _ hab hba
  exact absurd hba hab.asymm

/-- What a ranked list begins with is ranked before it. -/
theorem exists_before (h : s.Ranks ranking) {i : Nat} (hi : ranking[i]? = some lead)
    (hpart : IsLead part lead) : ∃ j, j < i ∧ ranking[j]? = some part := by
  have hlead := (h.mem_iff lead).mp (List.mem_of_getElem? hi)
  have hmem : part ∈ ranking :=
    (h.mem_iff part).mpr (Nat.le_trans hlead (sharers_le_of_isLead hpart))
  obtain ⟨j, hj⟩ := List.getElem?_of_mem hmem
  have hbefore : s.RanksBefore part lead := ranksBefore_of_isLead hpart
  refine ⟨j, ?_, hj⟩
  rw [List.getElem?_eq_some_iff] at hi hj
  obtain ⟨hilt, rfl⟩ := hi
  obtain ⟨hjlt, rfl⟩ := hj
  rcases Nat.lt_trichotomy j i with hless | hequal | hmore
  · exact hless
  · subst hequal
    exact absurd hbefore hbefore.asymm
  · exact absurd (List.pairwise_iff_getElem.mp h.ordered i j hilt hjlt hmore) hbefore.asymm

end Ranks

end Schema

namespace SharedLead

instance : Std.TransOrd SharedLead :=
  have : Std.TransCmp fun a b : SharedLead => compare b.tables a.tables :=
    inferInstanceAs (Std.TransCmp fun a b => compareOn SharedLead.tables b a)
  inferInstanceAs (Std.TransCmp
    (compareLex (fun a b : SharedLead => compare b.tables a.tables) (compareOn SharedLead.words)))

/-- Of two leads in order that differ in their words, the first has more tables, or as many and the
smaller words. -/
theorem lt_of_isLE {a b : SharedLead} (h : (compare a b).isLE) (hne : a.words ≠ b.words) :
    b.tables < a.tables ∨ a.tables = b.tables ∧ compare a.words b.words = .lt := by
  have hthen : compare a b = (compare b.tables a.tables).then (compare a.words b.words) := rfl
  rw [hthen] at h
  cases htables : compare b.tables a.tables with
  | lt => exact .inl (Nat.compare_eq_lt.mp htables)
  | gt => rw [htables] at h; cases h
  | eq =>
    refine .inr ⟨(Nat.compare_eq_eq.mp htables).symm, ?_⟩
    cases hwords : compare a.words b.words with
    | lt => rfl
    | eq => exact absurd (Std.LawfulEqOrd.eq_of_compare hwords) hne
    | gt => rw [htables, hwords] at h; cases h

end SharedLead

/-- A listing, in any order, of word lists that occur, each once and with how often it does. -/
structure Tallies (occurrences : List (List Word)) (tally : List SharedLead) : Prop where
  mem_iff : ∀ e, e ∈ tally ↔ e.words ∈ occurrences ∧ e.tables = occurrences.count e.words
  nodup : (tally.map (·.words)).Nodup

/-- The word lists of a tally that occur at least twice, by their order. -/
def ranked (tally : List SharedLead) : List SharedLead :=
  (tally.filter (2 ≤ ·.tables)).mergeSort fun a b => (compare a b).isLE

/-- The first word lists of a tally that occur at least twice, at most `limit` of them. -/
def firstShared (tally : List SharedLead) (limit : Nat) : List (List Word) :=
  ((ranked tally).take limit).map (·.words)

namespace Tallies

variable {tally : List SharedLead}

/-- The leading word lists of a schema are tallied in the order of the words. -/
theorem of_occurrences (occurrences : List (List Word)) : Tallies occurrences
    ((Increasing.ofList occurrences).map fun ws => ⟨ws, occurrences.count ws⟩) where
  mem_iff e := by
    simp only [List.mem_map, Increasing.mem_ofList]
    constructor
    · intro hlisted
      obtain ⟨ws, hws, rfl⟩ := hlisted
      exact ⟨hws, rfl⟩
    · intro hcounted
      obtain ⟨hwords, htables⟩ := hcounted
      exact ⟨e.words, hwords, by rw [← htables]⟩
  nodup := by
    have hwords : (((Increasing.ofList occurrences).map fun ws =>
        (⟨ws, occurrences.count ws⟩ : SharedLead)).map (·.words)) = Increasing.ofList occurrences := by
      rw [List.map_map]
      exact List.map_id _
    rw [hwords]
    exact (Increasing.increasing_ofList occurrences).nodup

/-- A tally of a schema's leading word lists is ranked by sorting what is tallied twice or more. -/
theorem ranks (h : Tallies (leadOccurrences s) tally) :
    s.Ranks ((ranked tally).map (·.words)) where
  mem_iff lead := by
    simp only [List.mem_map, ranked, List.mem_mergeSort, List.mem_filter, h.mem_iff,
      decide_eq_true_eq]
    constructor
    · intro hranked
      obtain ⟨e, ⟨⟨-, htables⟩, hshared⟩, rfl⟩ := hranked
      rwa [← Schema.count_leadOccurrences, ← htables]
    · intro hshared
      rw [← Schema.count_leadOccurrences] at hshared
      have hoccurs : lead ∈ leadOccurrences s := List.count_pos_iff.mp (by omega)
      exact ⟨⟨lead, (leadOccurrences s).count lead⟩, ⟨⟨hoccurs, rfl⟩, hshared⟩, rfl⟩
  ordered := by
    have hperm := (List.mergeSort_perm (tally.filter (2 ≤ ·.tables)) fun a b =>
      (compare a b).isLE).map (·.words)
    have hne : ((ranked tally).map (·.words)).Nodup :=
      hperm.nodup_iff.mpr (h.nodup.sublist (List.filter_sublist.map _))
    have hle : (ranked tally).Pairwise fun a b => (compare a b).isLE :=
      pairwise_isLE_mergeSort compare _
    refine List.pairwise_map.mpr ((hle.and (List.pairwise_map.mp hne)).imp_of_mem ?_)
    intro a b ha hb hab
    have hsharers {e : SharedLead} (he : e ∈ ranked tally) : s.sharers e.words = e.tables := by
      rw [ranked, List.mem_mergeSort, List.mem_filter, h.mem_iff] at he
      rw [he.1.2, Schema.count_leadOccurrences]
    unfold Schema.RanksBefore
    rw [hsharers ha, hsharers hb]
    exact SharedLead.lt_of_isLE hab.1 hab.2

/-- Every tally has the ranking of the schema, and the first of it are taken. -/
theorem firstShared_eq_take (h : Tallies (leadOccurrences s) tally) (hranks : s.Ranks ranking)
    (limit : Nat) : firstShared tally limit = ranking.take limit := by
  rw [hranks.unique h.ranks, firstShared, List.map_take]

end Tallies

namespace Schema

theorem exists_ranks (s : Schema) : ∃ ranking, s.Ranks ranking :=
  ⟨_, (Tallies.of_occurrences (leadOccurrences s)).ranks⟩

theorem Ranks.sharedLeads_eq_take (h : s.Ranks ranking) (limit : Nat) :
    sharedLeads s limit = ranking.take limit :=
  (Tallies.of_occurrences (leadOccurrences s)).firstShared_eq_take h limit

/-- What a shared lead begins with is shared too, at an earlier place. -/
theorem exists_sharedLead_before {limit i : Nat} (hi : (sharedLeads s limit)[i]? = some lead)
    (hpart : IsLead part lead) : ∃ j, j < i ∧ (sharedLeads s limit)[j]? = some part := by
  obtain ⟨ranking, hranks⟩ := s.exists_ranks
  rw [hranks.sharedLeads_eq_take] at hi ⊢
  have hlimit : i < limit := by
    apply Nat.lt_of_not_le
    intro hle
    rw [List.getElem?_take, if_neg (by omega)] at hi
    cases hi
  rw [List.getElem?_take_of_lt hlimit] at hi
  obtain ⟨j, hj, hbefore⟩ := hranks.exists_before hi hpart
  exact ⟨j, hj, by rw [List.getElem?_take_of_lt (by omega), hbefore]⟩

theorem ne_nil_of_mem_sharedLeads {limit : Nat} (h : lead ∈ sharedLeads s limit) : lead ≠ [] := by
  obtain ⟨ranking, hranks⟩ := s.exists_ranks
  rw [hranks.sharedLeads_eq_take] at h
  have hshared : 2 ≤ (leadOccurrences s).count lead := by
    rw [count_leadOccurrences]
    exact (hranks.mem_iff lead).mp (List.mem_of_mem_take h)
  have hoccurs : lead ∈ leadOccurrences s := List.count_pos_iff.mp (by omega)
  obtain ⟨t, -, ht⟩ := List.mem_flatMap.mp hoccurs
  exact (mem_leadingParts.mp ht).ne_nil

theorem mem_sharedLeads_of_isLead {limit : Nat} (h : lead ∈ sharedLeads s limit)
    (hpart : IsLead part lead) : part ∈ sharedLeads s limit := by
  obtain ⟨i, hi⟩ := List.getElem?_of_mem h
  obtain ⟨j, -, hj⟩ := exists_sharedLead_before hi hpart
  exact List.mem_of_getElem? hj

end Schema

/-- The shared leads that may be dropped from given words are those up to some length, and each
leaves a word. -/
theorem exists_droppable_iff (s : Schema) (limit : Nat) (ws : List Word) :
    ∃ m, (∀ lead rest, lead ∈ sharedLeads s limit ∧ Identifier.afterLead? lead ws = some rest ↔
        ∃ n, 1 ≤ n ∧ n ≤ m ∧ lead = ws.take n ∧ rest = ws.drop n) ∧
      ∀ n, 1 ≤ n → n ≤ m → ws.drop n ≠ [] := by
  let shared := fun n => ws.take n ∈ sharedLeads s limit
  -- the longest shared lead is the bound, since all that it begins with is shared
  let m := Nat.findGreatest shared (ws.length - 1)
  have hm : m ≤ ws.length - 1 := Nat.findGreatest_le _
  refine ⟨m, fun lead rest => ?_, fun n hpos hn hnil => ?_⟩
  · rw [Identifier.afterLead?_eq_some_iff]
    constructor
    · intro hdropped
      obtain ⟨hlead, rfl, hrest⟩ := hdropped
      have hpos : 0 < lead.length :=
        List.length_pos_iff.mpr (Schema.ne_nil_of_mem_sharedLeads hlead)
      have hleft : 0 < rest.length := List.length_pos_iff.mpr hrest
      have hn : lead.length ≤ m := by
        apply Nat.le_findGreatest
        · rw [List.length_append]; omega
        · show (lead ++ rest).take lead.length ∈ sharedLeads s limit
          rwa [List.take_left]
      exact ⟨lead.length, hpos, hn, List.take_left.symm, List.drop_left.symm⟩
    · intro hbound
      obtain ⟨n, hpos, hn, rfl, rfl⟩ := hbound
      have hgreatest : ws.take m ∈ sharedLeads s limit :=
        Nat.findGreatest_of_ne_zero (P := shared) rfl (by omega)
      refine ⟨?_, List.take_append_drop n ws, List.drop_eq_nil_iff.not.mpr (by omega)⟩
      rcases Nat.eq_or_lt_of_le hn with rfl | hless
      · exact hgreatest
      · exact Schema.mem_sharedLeads_of_isLead hgreatest (.take_take hpos hless (by omega))
  · rw [List.drop_eq_nil_iff] at hnil
    omega

/-- The shared leads are the first of all word lists with which two tables begin: those of more
tables first, else in the order of the words, none twice, and however they were tallied. So what a
shared lead begins with is shared at an earlier place, and the leads that may be dropped from a
table's name are those up to some length. -/
theorem sharedLeads_canonical (s : Schema) (limit : Nat) :
    (∃ ranking : List (List Word),
      (∀ lead, lead ∈ ranking ↔ 2 ≤ s.sharers lead) ∧ ranking.Pairwise s.RanksBefore ∧
      ranking.Nodup ∧ sharedLeads s limit = ranking.take limit ∧
      ∀ tally, Tallies (leadOccurrences s) tally → firstShared tally limit = ranking.take limit) ∧
    (∀ (i : Nat) lead part, (sharedLeads s limit)[i]? = some lead → IsLead part lead →
      ∃ j, j < i ∧ (sharedLeads s limit)[j]? = some part) ∧
    ∀ key t, s.table? key = some t → ∃ m,
      (∀ lead rest,
        lead ∈ sharedLeads s limit ∧
            Identifier.afterLead? lead (Identifier.words t.name) = some rest ↔
          ∃ n, 1 ≤ n ∧ n ≤ m ∧ lead = (Identifier.words t.name).take n ∧
            rest = (Identifier.words t.name).drop n) ∧
      ∀ n, 1 ≤ n → n ≤ m → (Identifier.words t.name).drop n ≠ [] := by
  obtain ⟨ranking, hranks⟩ := s.exists_ranks
  refine ⟨⟨ranking, hranks.mem_iff, hranks.ordered, hranks.nodup,
    hranks.sharedLeads_eq_take limit, fun tally h => h.firstShared_eq_take hranks limit⟩, ?_, ?_⟩
  · intro i lead part hi hpart
    exact Schema.exists_sharedLead_before hi hpart
  · intro key t _
    exact exists_droppable_iff s limit (Identifier.words t.name)

/-- Three tables share `app` and two of them also `app_core`, which a limit of one leaves out. -/
example :
    let s : Schema := {
      version := "1.0"
      tables := .ofList (["app_core_roles", "app_core_users", "app_log"].map fun name =>
        (name, { name := name, columns := [], constraints := [] })) }
    sharedLeads s 1 = [["app".toList]] ∧
      sharedLeads s 2 = [["app".toList], ["app".toList, "core".toList]] := by
  decide_cbv

end ImpliedKeys
