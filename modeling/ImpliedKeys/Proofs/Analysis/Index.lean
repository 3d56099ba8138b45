import ImpliedKeys.Analysis.Run
import ImpliedKeys.Proofs.Schema.Soundness

/-!
# What the indexes hold

The column index is filled one entry at a time on both of its sides. After any number of entries the
two sides relate the same keys and columns, so that the index of a schema relates a column to a match
key exactly when the column exists and has that key, however often it is listed. The table index is
read through qualified names, and what is read is the keys of the table that is stored there.
-/
namespace ImpliedKeys

open Identifier (MatchKey)

/-- The schema has a column at a reference. -/
def Schema.Has (s : Schema) (r : ColumnRef) : Prop :=
  ∃ t, s.table? r.table = some t ∧ t.hasColumn r.column = true

namespace ColumnIndex

/-- Both sides of the index relate exactly the entered keys and columns. -/
structure Holds (index : ColumnIndex) (entered : List (MatchKey × ColumnRef)) : Prop where
  columns : ∀ k r, r ∈ index.columnsMatching k ↔ (k, r) ∈ entered
  keys : ∀ k r, k ∈ index.keysFor r ↔ (k, r) ∈ entered

theorem holds_empty : Holds {} [] where
  columns _ _ := iff_of_false SortedSet.not_mem_empty List.not_mem_nil
  keys _ _ := iff_of_false SortedSet.not_mem_empty List.not_mem_nil

/-- One entry keeps the two sides converse. -/
theorem Holds.enter {index : ColumnIndex} {entered : List (MatchKey × ColumnRef)}
    (h : index.Holds entered) (e : MatchKey × ColumnRef) :
    (index.enter e).Holds (entered ++ [e]) where
  columns k r := by
    have hold := h.columns k r
    unfold columnsMatching at hold ⊢
    rw [ColumnIndex.enter, Multimap.mem_get_add, hold]
    simp [Prod.ext_iff, or_comm]
  keys k r := by
    have hold := h.keys k r
    unfold keysFor at hold ⊢
    rw [ColumnIndex.enter, Multimap.mem_get_add, hold]
    simp [Prod.ext_iff, or_comm, and_comm]

theorem Holds.foldl {index : ColumnIndex} {entered : List (MatchKey × ColumnRef)}
    (h : index.Holds entered) (es : List (MatchKey × ColumnRef)) :
    (es.foldl ColumnIndex.enter index).Holds (entered ++ es) := by
  induction es generalizing index entered with
  | nil => simpa using h
  | cons e es ih =>
    have hstep := ih (h.enter e)
    rwa [List.append_assoc] at hstep

theorem mem_ofTable {key : String} {t : Table} {k : MatchKey} {r : ColumnRef} :
    (k, r) ∈ ofTable key t ↔
      r.table = key ∧ t.hasColumn r.column = true ∧ k ∈ Identifier.columnKeys r.column := by
  simp only [ofTable, List.mem_flatMap, List.mem_map, Prod.mk.injEq, Table.hasColumn_iff]
  constructor
  · intro hentry
    obtain ⟨c, hc, _, hk, rfl, rfl⟩ := hentry
    exact ⟨rfl, ⟨c, hc, rfl⟩, hk⟩
  · intro hcolumn
    obtain ⟨rfl, ⟨c, hc, hname⟩, hk⟩ := hcolumn
    exact ⟨c, hc, k, hname ▸ hk, rfl, by rw [hname]⟩

/-- The entries of a schema are the match keys of its columns. -/
theorem mem_entries_iff {s : Schema} {k : MatchKey} {r : ColumnRef} :
    (k, r) ∈ (s.tables.entries.flatMap fun e => ofTable e.1 e.2) ↔
      s.Has r ∧ k ∈ Identifier.columnKeys r.column := by
  simp only [List.mem_flatMap, mem_ofTable]
  constructor
  · intro hentry
    obtain ⟨⟨key, t⟩, he, rfl, hc, hk⟩ := hentry
    exact ⟨⟨t, Schema.table?_eq_some_iff.mpr he, hc⟩, hk⟩
  · intro hcolumn
    obtain ⟨⟨t, ht, hc⟩, hk⟩ := hcolumn
    exact ⟨(r.table, t), Schema.table?_eq_some_iff.mp ht, rfl, hc, hk⟩

theorem holds_ofSchema (s : Schema) :
    (ofSchema s).Holds (s.tables.entries.flatMap fun e => ofTable e.1 e.2) :=
  holds_empty.foldl _

theorem mem_columnsMatching {s : Schema} {k : MatchKey} {r : ColumnRef} :
    r ∈ (ofSchema s).columnsMatching k ↔ s.Has r ∧ k ∈ Identifier.columnKeys r.column :=
  ((holds_ofSchema s).columns k r).trans mem_entries_iff

theorem mem_keysFor {s : Schema} {k : MatchKey} {r : ColumnRef} :
    k ∈ (ofSchema s).keysFor r ↔ s.Has r ∧ k ∈ Identifier.columnKeys r.column :=
  ((holds_ofSchema s).keys k r).trans mem_entries_iff

theorem Holds.converse {index : ColumnIndex} {entered : List (MatchKey × ColumnRef)}
    (h : index.Holds entered) (k : MatchKey) (r : ColumnRef) :
    r ∈ index.columnsMatching k ↔ k ∈ index.keysFor r :=
  (h.columns k r).trans (h.keys k r).symm

theorem keysFor_eq_empty {s : Schema} {r : ColumnRef} (h : ¬ s.Has r) :
    (ofSchema s).keysFor r = .empty := by
  refine SortedSet.ext fun k => ?_
  rw [mem_keysFor]
  exact iff_of_false (fun hkey => h hkey.1) SortedSet.not_mem_empty

theorem mem_keys_foldl (es : List (MatchKey × ColumnRef)) (index : ColumnIndex) (k : MatchKey) :
    k ∈ (es.foldl enter index).keys ↔ k ∈ index.keys ∨ ∃ r, (k, r) ∈ es := by
  induction es generalizing index with
  | nil => simp
  | cons e es ih =>
    have hstep : k ∈ (index.enter e).keys ↔ k = e.1 ∨ k ∈ index.keys := by
      simp only [keys, SortedSet.mem_ofList]
      exact Multimap.mem_keys_add
    rw [List.foldl_cons, ih, hstep]
    constructor
    · intro hkey
      rcases hkey with (rfl | hold) | ⟨r, hr⟩
      · exact .inr ⟨e.2, List.mem_cons_self⟩
      · exact .inl hold
      · exact .inr ⟨r, List.mem_cons_of_mem e hr⟩
    · intro hkey
      rcases hkey with hold | ⟨r, hr⟩
      · exact .inl (.inr hold)
      · rcases List.mem_cons.mp hr with rfl | hr
        · exact .inl (.inl rfl)
        · exact .inr ⟨r, hr⟩

/-- The listed keys are those of some column. -/
theorem mem_keys {s : Schema} {k : MatchKey} :
    k ∈ (ofSchema s).keys ↔ ∃ r, s.Has r ∧ k ∈ Identifier.columnKeys r.column := by
  have hempty : k ∉ ({} : ColumnIndex).keys := SortedSet.not_mem_empty
  rw [ofSchema, mem_keys_foldl, or_iff_right hempty]
  exact exists_congr fun r => mem_entries_iff

/-- The index is read alike for any two schemas with the same columns, however often and in
whatever order the columns are listed. -/
theorem readings_eq_of_has_iff {s s' : Schema} (h : ∀ r, s'.Has r ↔ s.Has r) :
    (ofSchema s').columnsMatching = (ofSchema s).columnsMatching ∧
      (ofSchema s').keysFor = (ofSchema s).keysFor ∧ (ofSchema s').text = (ofSchema s).text := by
  have hcolumns : (ofSchema s').columnsMatching = (ofSchema s).columnsMatching := by
    funext k
    exact SortedSet.ext fun r => by rw [mem_columnsMatching, mem_columnsMatching, h]
  have hkeysFor : (ofSchema s').keysFor = (ofSchema s).keysFor := by
    funext r
    exact SortedSet.ext fun k => by rw [mem_keysFor, mem_keysFor, h]
  have hkeys : (ofSchema s').keys = (ofSchema s).keys :=
    SortedSet.ext fun k => by simp only [mem_keys, h]
  refine ⟨hcolumns, hkeysFor, ?_⟩
  rw [text, text, hkeys, hcolumns]

/-- The sides of the column index are converse, of a schema and at any time while one is filled, and
relate a key to the columns that exist and have it. A column that does not exist has no keys there,
and a column that is listed again adds nothing. -/
theorem sides_converse (s : Schema) :
    (∀ k r, (r ∈ (ofSchema s).columnsMatching k ↔ k ∈ (ofSchema s).keysFor r) ∧
      (k ∈ (ofSchema s).keysFor r ↔
        (∃ t, s.table? r.table = some t ∧ ∃ c ∈ t.columns, c.name = r.column) ∧
          k ∈ Identifier.columnKeys r.column)) ∧
    (∀ (entered : List (MatchKey × ColumnRef)) (k : MatchKey) (r : ColumnRef),
      r ∈ (entered.foldl enter {}).columnsMatching k ↔
        k ∈ (entered.foldl enter {}).keysFor r) ∧
    (∀ r, ¬ s.Has r → (ofSchema s).keysFor r = .empty) ∧
    ∀ s' : Schema, (∀ r, s'.Has r ↔ s.Has r) →
      (ofSchema s').columnsMatching = (ofSchema s).columnsMatching ∧
        (ofSchema s').keysFor = (ofSchema s).keysFor ∧ (ofSchema s').text = (ofSchema s).text := by
  refine ⟨fun k r => ⟨(holds_ofSchema s).converse k r, ?_⟩, fun entered k r => ?_,
    fun r hr => keysFor_eq_empty hr, fun s' h => readings_eq_of_has_iff h⟩
  · simp only [mem_keysFor, Schema.Has, Table.hasColumn_iff]
  · exact (holds_empty.foldl entered).converse k r

/-- A table of visits that lists its doctor `times` over. -/
def visits (times : Nat) : Schema := Schema.addTable { version := "1.0" }
  { name := "visits",
    columns := List.replicate times { name := "doctor_id", type := .integer none } }

theorem has_visits {times : Nat} (h : times ≠ 0) (r : ColumnRef) :
    (visits times).Has r ↔ r = ⟨"visits", "doctor_id"⟩ := by
  have htable : (visits times).table? r.table = if r.table = "visits" then some
      { name := "visits",
        columns := List.replicate times { name := "doctor_id", type := .integer none } }
      else none := NameMap.get?_insert ..
  rw [Schema.Has, htable]
  constructor
  · intro hcolumn
    obtain ⟨t, ht, hcolumn⟩ := hcolumn
    by_cases hvisits : r.table = "visits"
    · rw [if_pos hvisits] at ht
      cases ht
      obtain ⟨c, hc, hname⟩ := Table.hasColumn_iff.mp hcolumn
      rw [List.eq_of_mem_replicate hc] at hname
      cases r
      simp_all
    · rw [if_neg hvisits] at ht
      cases ht
  · intro hr
    subst hr
    exact ⟨_, if_pos rfl, Table.hasColumn_iff.mpr ⟨_, List.mem_replicate.mpr ⟨h, rfl⟩, rfl⟩⟩

/-- Listed twice, the doctor has the keys of one column, and the nurse has none. -/
theorem sides_converse_visits :
    (∀ r, (visits 2).Has r ↔ (visits 1).Has r) ∧ (ofSchema (visits 2)).text = (ofSchema (visits 1)).text ∧
    ¬ (visits 1).Has ⟨"visits", "nurse_id"⟩ ∧
    (ofSchema (visits 1)).keysFor ⟨"visits", "nurse_id"⟩ = .empty := by
  obtain ⟨-, -, hmissing, hsame⟩ := sides_converse (visits 1)
  have hhas (r : ColumnRef) : (visits 2).Has r ↔ (visits 1).Has r := by
    rw [has_visits (by decide), has_visits (by decide)]
  have hnurse : ¬ (visits 1).Has ⟨"visits", "nurse_id"⟩ := by
    rw [has_visits (by decide)]
    decide
  exact ⟨hhas, (hsame (visits 2) hhas).2.2, hnurse, hmissing _ hnurse⟩

end ColumnIndex

/-- A table's keys are those of the table that is stored under its qualified name. -/
theorem TableIndex.mem_keysFor {s : Schema} {limit : Nat} {t : Table} {k : MatchKey} :
    k ∈ (TableIndex.ofSchema s limit).keysFor t ↔
      ∃ u, s.table? t.fullName = some u ∧ k ∈ Identifier.tableKeys (sharedLeads s limit) u.name := by
  unfold keysFor ofSchema
  rw [NameMap.get?_mapWithName]
  unfold Schema.table?
  cases s.tables.get? t.fullName <;> simp

namespace Lookup

variable {config : Config} {s : Schema} {t : Table} {parent child : ColumnRef}

theorem mem_soughtKeys {k : MatchKey} :
    k ∈ (ofSchema config s).soughtKeys t parent ↔
      (s.Has parent ∧ k ∈ Identifier.columnKeys parent.column) ∨
        t.inPrimaryKey parent.column = true ∧ ∃ u, s.table? t.fullName = some u ∧
          k ∈ Identifier.tableKeys (sharedLeads s config.maxTablePrefixes) u.name := by
  unfold soughtKeys
  by_cases hp : t.inPrimaryKey parent.column = true
  · simp only [hp, if_true, SortedSet.mem_union, ofSchema, TableIndex.mem_keysFor,
      ColumnIndex.mem_keysFor, true_and]
    exact or_comm
  · simp [hp, ofSchema, ColumnIndex.mem_keysFor]

/-- A child is matched when it exists and has one of the sought keys. -/
theorem mem_matching :
    child ∈ (ofSchema config s).matching t parent ↔
      s.Has child ∧ ∃ k ∈ Identifier.columnKeys child.column,
        k ∈ (ofSchema config s).soughtKeys t parent := by
  have hcolumns : (ofSchema config s).columns = ColumnIndex.ofSchema s := rfl
  simp only [matching, SortedSet.mem_ofList, List.mem_flatMap, hcolumns, ← SortedSet.mem_def,
    ColumnIndex.mem_columnsMatching]
  constructor
  · intro hfound
    obtain ⟨k, hk, hc, hck⟩ := hfound
    exact ⟨hc, k, hck, hk⟩
  · intro hchild
    obtain ⟨hc, k, hck, hk⟩ := hchild
    exact ⟨k, hk, hc, hck⟩

end Lookup

end ImpliedKeys
