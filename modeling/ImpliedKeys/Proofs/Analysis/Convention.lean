import ImpliedKeys.Proofs.Analysis.Correspondence
import ImpliedKeys.Proofs.Analysis.Direction

/-!
# Columns that are named after a table

A column that is named by the words of a table and `id`, after words for the role that the table
has, shares a match key with the table. So the column and each key column of the table are
associated, in one direction or the other, if nothing forbids it.
-/
namespace ImpliedKeys

open Identifier (Word)

variable {config : Config} {s : Schema} {t : Table} {leads : List (List Word)}
variable {role called : List Word} {parent child : ColumnRef}

/-- Words that call a table: those of its name, or what remains of them after leading words that may
be dropped. -/
def Table.CalledBy (leads : List (List Word)) (t : Table) (called : List Word) : Prop :=
  called ≠ [] ∧ (Identifier.words t.name = called ∨
    ∃ lead ∈ leads, Identifier.words t.name = lead ++ called)

namespace Table.CalledBy

/-- The singular of the words is a key of the table. -/
theorem singular_mem_tableKeys (h : t.CalledBy leads called) :
    Identifier.singular called.flatten ∈ Identifier.tableKeys leads t.name := by
  obtain ⟨hne, hwords⟩ := h
  have hsingular := Identifier.singular_mem_singularForms called.flatten
  rw [Identifier.mem_tableKeys]
  rcases hwords with hname | ⟨lead, hlead, hname⟩
  · rw [hname]
    exact ⟨hne, .inl hsingular⟩
  · rw [hname]
    exact ⟨by simp [hne], .inr ⟨lead, hlead, called, Identifier.afterLead?_append hne, hsingular⟩⟩

/-- Whatever the role is, the singular of the words is a key of the column. -/
theorem singular_mem_columnKeys (h : t.CalledBy leads called) {name : String}
    (hwords : Identifier.words name = role ++ called ++ ["id".toList]) :
    Identifier.singular called.flatten ∈ Identifier.columnKeys name := by
  rw [Identifier.mem_columnKeys_of_words hwords]
  exact ⟨called, ⟨h.1, List.suffix_append role called⟩,
    Identifier.singular_mem_singularForms called.flatten⟩

end Table.CalledBy

/-- A column that is named after a table by its role, the words that call the table and `id` is
associated with each column of the table's first primary key, unless it is that column, the two are
declared, or a switch of the settings forbids the pair. -/
theorem found_of_named_after (config : Config) (namer : Namer) (hkeyed : s.WellKeyed)
    (hs : s.defect? = none) (hmany : 2 ≤ s.tableCount) (ht : s.table? parent.table = some t)
    (hkey : ∃ key, t.primaryKey? = some key ∧ parent.column ∈ key) (hchild : s.Has child)
    (hdistinct : parent ≠ child)
    (hcalled : t.CalledBy (sharedLeads s config.maxTablePrefixes) called)
    (hwords : Identifier.words child.column = role ++ called ++ ["id".toList])
    (hundeclared : ¬ s.Declares parent child) (hunreversed : ¬ s.Declares child parent)
    (htypes : config.checkColumnTypes = true → s.Comparable parent child)
    (htables : config.allowSelfAssociations = false → parent.table ≠ child.table) :
    ∃ found, (analyze config namer s).outcome = .ok found ∧
      (⟨parent, child⟩ ∈ found.associations ∨ ⟨child, parent⟩ ∈ found.associations) := by
  obtain ⟨key, hfirst, hcolumn⟩ := hkey
  have hmatches : t.Matches (sharedLeads s config.maxTablePrefixes) parent.column child.column :=
    ⟨_, hcalled.singular_mem_columnKeys hwords,
      .inr ⟨⟨key, Table.mem_constraints_of_primaryKey? hfirst, hcolumn⟩,
        hcalled.singular_mem_tableKeys⟩⟩
  have hproposable : Proposable config s parent child :=
    { distinct := hdistinct, undeclared := hundeclared, unreversed := hunreversed, apart := htables,
      comparable := htypes, hasChild := hchild,
      candidate := ⟨t, ht, .inl ⟨key, hfirst, hcolumn⟩, hmatches⟩ }
  have hproposed : ⟨parent, child⟩ ∈ proposedPairs config s :=
    (mem_proposals_iff_proposable hkeyed hs).mpr hproposable
  obtain ⟨found, hfound⟩ := exists_ok_of_sound config namer hs
  exact ⟨found, hfound, found_or_flip_found hfound hmany hproposed⟩

/-- Users of a shop have a favourite order line. Both tables have the application's name in
front. -/
def favourites : Schema := Schema.addTable (Schema.addTable { version := "1.0" }
  { name := "app_order_line",
    columns := [{ name := "order_number", type := .integer none },
      { name := "position", type := .integer none }],
    constraints := [.primaryKey ["order_number", "position"]] })
  { name := "AppUsers",
    columns := [{ name := "id", type := .integer none },
      { name := "FAVOURITE_orderLine_ID", type := .decimal 9 0 }],
    constraints := [.primaryKey ["id"]] }

/-- The position of the favourite order line is found by its name without the application's. -/
theorem found_of_named_after_favourites :
    favourites.WellKeyed ∧ favourites.defect? = none ∧ 2 ≤ favourites.tableCount ∧
    (∃ t, favourites.table? "app_order_line" = some t ∧
      t.CalledBy (sharedLeads favourites 5) ["order".toList, "line".toList]) ∧
    Identifier.words "FAVOURITE_orderLine_ID" =
      ["favourite".toList] ++ ["order".toList, "line".toList] ++ ["id".toList] ∧
    ∃ found, (analyze {} .conventional favourites).outcome = .ok found ∧
      (⟨⟨"app_order_line", "position"⟩, ⟨"AppUsers", "FAVOURITE_orderLine_ID"⟩⟩ ∈
          found.associations ∨
        ⟨⟨"AppUsers", "FAVOURITE_orderLine_ID"⟩, ⟨"app_order_line", "position"⟩⟩ ∈
          found.associations) := by
  have hkeyed : favourites.WellKeyed := by decide +kernel
  have hsound : favourites.defect? = none := by decide +kernel
  have hmany : 2 ≤ favourites.tableCount := by decide +kernel
  have hadmissible := admissible_iff.mp (by decide +kernel : admissible {} favourites
    (.ofSchema favourites) ⟨"app_order_line", "position"⟩
    ⟨"AppUsers", "FAVOURITE_orderLine_ID"⟩ = true)
  have hstored : (favourites.table? "app_order_line").map (fun t => (t.name, t.primaryKey?)) =
      some ("app_order_line", some ["order_number", "position"]) := by decide +kernel
  obtain ⟨t, ht, hnames⟩ := Option.map_eq_some_iff.mp hstored
  obtain ⟨hname, hkey⟩ := Prod.mk.inj hnames
  have hchild : favourites.Has ⟨"AppUsers", "FAVOURITE_orderLine_ID"⟩ :=
    Schema.has_iff.mpr (Option.isSome_iff_exists.mp (by decide +kernel))
  have hcalled : t.CalledBy (sharedLeads favourites 5) ["order".toList, "line".toList] := by
    unfold Table.CalledBy
    rw [hname]
    exact ⟨by decide, .inr ⟨["app".toList], by decide +kernel, by decide +kernel⟩⟩
  have hwords : Identifier.words "FAVOURITE_orderLine_ID" =
      ["favourite".toList] ++ ["order".toList, "line".toList] ++ ["id".toList] := by
    decide +kernel
  refine ⟨hkeyed, hsound, hmany, ⟨t, ht, hcalled⟩, hwords, ?_⟩
  exact found_of_named_after {} .conventional hkeyed hsound hmany ht ⟨_, hkey, by simp⟩ hchild
    hadmissible.distinct hcalled hwords hadmissible.undeclared hadmissible.unreversed
    hadmissible.comparable hadmissible.apart

example : keptPairs {} favourites =
    [⟨⟨"app_order_line", "order_number"⟩, ⟨"AppUsers", "FAVOURITE_orderLine_ID"⟩⟩,
      ⟨⟨"app_order_line", "position"⟩, ⟨"AppUsers", "FAVOURITE_orderLine_ID"⟩⟩] := by
  decide +kernel

end ImpliedKeys
