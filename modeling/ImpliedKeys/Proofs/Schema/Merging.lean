import ImpliedKeys.Proofs.Schema.Resolution
import ImpliedKeys.Schema.Load

/-!
# Merging schemas

Adding tables one after another leaves, under each qualified name, the last table of that name. The
tables of one schema are added in the order of the names that they are stored under, those of
several schemas one schema after the other. So neither those names nor the division into schemas
matters as long as no qualified name is given twice.
-/
namespace ImpliedKeys

/-- Searched from its end, an ordered list gives what its greatest fitting element gives. -/
theorem findSome?_reverse_eq_some_iff {α β : Type} {R : α → α → Prop} {l : List α}
    (hl : l.Pairwise R) (hasymm : ∀ a b, R a b → ¬ R b a) {f : α → Option β} {b : β} :
    l.reverse.findSome? f = some b ↔
      ∃ a ∈ l, f a = some b ∧ ∀ c ∈ l, (f c).isSome = true → c = a ∨ R c a := by
  have hgreatest {b : β} (h : l.reverse.findSome? f = some b) :
      ∃ a ∈ l, f a = some b ∧ ∀ c ∈ l, (f c).isSome = true → c = a ∨ R c a := by
    obtain ⟨later, a, earlier, hsplit, ha, hlater⟩ := List.findSome?_eq_some_iff.mp h
    have hpairs : (later ++ a :: earlier).Pairwise fun x y => R y x :=
      hsplit ▸ List.pairwise_reverse.mpr hl
    have hbefore := (List.pairwise_cons.mp (List.pairwise_append.mp hpairs).2.1).1
    have hmem (c : α) : c ∈ l ↔ c ∈ later ++ a :: earlier := by
      rw [← hsplit, List.mem_reverse]
    refine ⟨a, (hmem a).mpr (by simp), ha, fun c hc hfits => ?_⟩
    rcases List.mem_append.mp ((hmem c).mp hc) with hin | hin
    · simp [hlater c hin] at hfits
    · rcases List.mem_cons.mp hin with rfl | hin
      · exact .inl rfl
      · exact .inr (hbefore c hin)
  refine ⟨hgreatest, fun h => ?_⟩
  obtain ⟨a, ha, hfa, hlast⟩ := h
  obtain ⟨found, hfound⟩ : ∃ found, l.reverse.findSome? f = some found := by
    rw [← Option.isSome_iff_exists, List.findSome?_isSome_iff]
    exact ⟨a, List.mem_reverse.mpr ha, by simp [hfa]⟩
  obtain ⟨c, hc, hfc, hlast'⟩ := hgreatest hfound
  -- Both are greatest, so they are the same element.
  have hsame : c = a := by
    rcases hlast c hc (by simp [hfc]) with h | hca
    · exact h
    · rcases hlast' a ha (by simp [hfa]) with h | hac
      · exact h.symm
      · exact absurd hac (hasymm c a hca)
  rw [hfound, ← hfc, hsame, hfa]

theorem not_lt_of_lt {a b : String} (h : compare a b = .lt) : ¬ compare b a = .lt := by
  rw [Std.OrientedCmp.gt_of_lt h]
  exact nofun

namespace Schema

variable {s : Schema} {ts : List Table} {all : List Schema} {key qualified : String} {t : Table}

theorem wellKeyed_of_no_tables (h : s.tables = .empty) : s.WellKeyed := by
  intro e he
  rw [h] at he
  cases he

theorem WellKeyed.addTables (hkeyed : s.WellKeyed) : (s.addTables ts).WellKeyed := by
  induction ts generalizing s with
  | nil => exact hkeyed
  | cons t ts ih => exact ih hkeyed.addTable

theorem version_addTables : (s.addTables ts).version = s.version := by
  induction ts generalizing s with
  | nil => rfl
  | cons t ts ih => exact ih

/-- Of the tables that are added with one qualified name the last one counts. -/
theorem table?_addTables :
    (s.addTables ts).table? key = (ts.reverse.find? (·.fullName = key)).or (s.table? key) := by
  induction ts generalizing s with
  | nil => rfl
  | cons t ts ih =>
    have hstep : s.addTables (t :: ts) = (s.addTable t).addTables ts := rfl
    rw [hstep, ih, table?_addTable, List.reverse_cons, List.find?_append, Option.or_assoc]
    by_cases hkey : key = t.fullName
    · simp [hkey]
    · simp [hkey, Ne.symm hkey]

theorem wellKeyed_rekeyed (s : Schema) : s.rekeyed.WellKeyed :=
  (wellKeyed_of_no_tables rfl).addTables

theorem wellKeyed_merged (all : List Schema) : (merged all).WellKeyed :=
  (wellKeyed_of_no_tables rfl).addTables

theorem version_rekeyed (s : Schema) : s.rekeyed.version = s.version := version_addTables

theorem version_merged (all : List Schema) :
    (merged all).version = (all.head?.map (·.version)).getD defaultVersion := version_addTables

theorem table?_rekeyed :
    s.rekeyed.table? key = s.tables.values.reverse.find? (·.fullName = key) := by
  unfold rekeyed
  rw [table?_addTables]
  exact Option.or_none

/-- A table is the one of its qualified name that is stored under the greatest name. -/
structure LastNamed (s : Schema) (qualified : String) (t : Table) (key : String) : Prop where
  stored : s.table? key = some t
  named : t.fullName = qualified
  greatest : ∀ other u, s.table? other = some u → u.fullName = qualified →
    other = key ∨ compare other key = .lt

theorem table?_rekeyed_eq_some_iff :
    s.rekeyed.table? qualified = some t ↔ ∃ key, s.LastNamed qualified t key := by
  have hfind : s.rekeyed.table? qualified = s.tables.entries.reverse.findSome? fun e =>
      Option.guard (fun u : Table => u.fullName = qualified) e.2 := by
    rw [table?_rekeyed, NameMap.values, List.find?_eq_findSome?_guard, ← List.map_reverse,
      List.findSome?_map]
    rfl
  have hsorted : s.tables.entries.Pairwise fun e f => compare e.1 f.1 = .lt :=
    List.pairwise_map.mp s.tables.increasing
  rw [hfind, findSome?_reverse_eq_some_iff hsorted fun _ _ => not_lt_of_lt]
  constructor
  · intro hlast
    obtain ⟨⟨key, u⟩, hstored, hguard, hgreatest⟩ := hlast
    obtain ⟨rfl, hnamed⟩ := Option.guard_eq_some_iff.mp hguard
    refine ⟨key, table?_eq_some_iff.mpr hstored, of_decide_eq_true hnamed, ?_⟩
    intro other v hv hname
    rcases hgreatest (other, v) (table?_eq_some_iff.mp hv) (by simp [hname]) with he | hlt
    · exact .inl (congrArg Prod.fst he)
    · exact .inr hlt
  · intro hlast
    obtain ⟨key, h⟩ := hlast
    refine ⟨(key, t), table?_eq_some_iff.mp h.stored, by simp [h.named], fun e he hguard => ?_⟩
    have hstored : s.table? e.1 = some e.2 := table?_eq_some_iff.mpr he
    rcases h.greatest e.1 e.2 hstored (by simpa using hguard) with hkey | hlt
    · rw [hkey, h.stored] at hstored
      exact .inl (Prod.ext hkey (Option.some.inj hstored).symm)
    · exact .inr hlt

/-- A table of the schema has the qualified name, whatever name it is stored under. -/
def Names (s : Schema) (qualified : String) : Prop :=
  ∃ key t, s.table? key = some t ∧ t.fullName = qualified

theorem isSome_table?_rekeyed : (s.rekeyed.table? qualified).isSome = true ↔ s.Names qualified := by
  rw [table?_rekeyed, List.find?_isSome]
  constructor
  · intro hfound
    obtain ⟨t, ht, hname⟩ := hfound
    obtain ⟨key, hstored⟩ := NameMap.mem_values_iff.mp (List.mem_reverse.mp ht)
    exact ⟨key, t, hstored, of_decide_eq_true hname⟩
  · intro hnames
    obtain ⟨key, t, hstored, hname⟩ := hnames
    exact ⟨t, List.mem_reverse.mpr (NameMap.mem_values_iff.mpr ⟨key, hstored⟩),
      decide_eq_true hname⟩

/-- Tables that are stored under their qualified names stay where they are. -/
theorem WellKeyed.rekeyed_eq (hkeyed : s.WellKeyed) : s.rekeyed = s := by
  refine ext (version_rekeyed s) fun key => Option.ext fun t => ?_
  rw [table?_rekeyed_eq_some_iff]
  constructor
  · intro hlast
    obtain ⟨other, h⟩ := hlast
    have hkey : other = key := (hkeyed.fullName_eq h.stored).symm.trans h.named
    exact hkey ▸ h.stored
  · intro ht
    refine ⟨key, ht, hkeyed.fullName_eq ht, fun other u hu hname => ?_⟩
    exact .inl ((hkeyed.fullName_eq hu).symm.trans hname)

theorem table?_merged :
    (merged all).table? key = all.reverse.findSome? fun s => s.rekeyed.table? key := by
  unfold merged
  rw [table?_addTables, List.reverse_flatMap, List.find?_flatMap]
  refine (Option.or_none).trans ?_
  exact congrArg (List.findSome? · all.reverse) (funext fun _ => table?_rekeyed.symm)

theorem merged_singleton (s : Schema) : merged [s] = s.rekeyed := by
  refine ext ((version_merged [s]).trans (version_rekeyed s).symm) fun key => ?_
  rw [table?_merged, List.reverse_singleton, List.findSome?_singleton]

end Schema

end ImpliedKeys
