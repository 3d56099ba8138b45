import ImpliedKeys.Proofs.Analysis.Endpoint

/-!
# Names without underscores

The customary name of a pair joins its parts by underscores and marks none that stands in a part, so
pairs of other columns may come to one name. Where no part has an underscore the name can be taken
apart again. It tells the child and the table of the parent then, and a key holds the pairs that
agree in both.
-/
namespace ImpliedKeys

/-- Whether a name is told from its neighbours when names are joined by underscores. -/
abbrev HasNoUnderscore (name : String) : Prop := '_' ∉ name.toList

theorem toList_conventional (parent child : ColumnRef) :
    (Namer.conventional parent child).toList = ['_'].intercalate
      [['f', 'k'], child.table.toList, child.column.toList, parent.table.toList] := by
  simp [Namer.conventional, List.intercalate]

/-- The parts that a name is joined of, if none of them has an underscore. -/
theorem splitOn_conventional {parent child : ColumnRef} (htable : HasNoUnderscore child.table)
    (hcolumn : HasNoUnderscore child.column) (hparent : HasNoUnderscore parent.table) :
    (Namer.conventional parent child).toList.splitOn '_' =
      [['f', 'k'], child.table.toList, child.column.toList, parent.table.toList] := by
  rw [toList_conventional]
  refine List.splitOn_intercalate '_' ?_ (List.cons_ne_nil _ _)
  simp [htable, hcolumn, hparent]

/-- What the name of a pair is joined of has no underscore. -/
structure Association.HasPlainNames (a : Association) : Prop where
  childTable : HasNoUnderscore a.child.table
  childColumn : HasNoUnderscore a.child.column
  parentTable : HasNoUnderscore a.parent.table

namespace Association

/-- Two pairs agree in all that the name of a pair tells of it. -/
structure SameReference (a b : Association) : Prop where
  child_eq : a.child = b.child
  parentTable_eq : a.parent.table = b.parent.table

theorem conventional_eq_iff {a b : Association} (ha : a.HasPlainNames) (hb : b.HasPlainNames) :
    Namer.conventional a.parent a.child = Namer.conventional b.parent b.child ↔
      a.SameReference b := by
  constructor
  · intro hname
    have hparts := congrArg (List.splitOn '_' <| String.toList ·) hname
    simp only [splitOn_conventional ha.childTable ha.childColumn ha.parentTable,
      splitOn_conventional hb.childTable hb.childColumn hb.parentTable, List.cons.injEq,
      String.toList_inj, true_and, and_true] at hparts
    obtain ⟨htable, hcolumn, hparent⟩ := hparts
    refine ⟨?_, hparent⟩
    cases hchild : a.child
    cases hother : b.child
    simp_all
  · intro hsame
    unfold Namer.conventional
    rw [hsame.child_eq, hsame.parentTable_eq]

end Association

/-- With underscores the lines of an order that refer to an item and an order that refers to the item
of a line have one name. -/
example : Namer.conventional ⟨"ITEMS", "ID"⟩ ⟨"ORDER_LINE", "ITEM_ID"⟩ =
    Namer.conventional ⟨"ITEMS", "ID"⟩ ⟨"ORDER", "LINE_ITEM_ID"⟩ := by decide +kernel

/-- No table has an underscore in the name it is stored under, in its own or in those of its
namespace and its columns. -/
def Schema.HasPlainNames (s : Schema) : Prop :=
  ∀ e ∈ s.tables.entries, HasNoUnderscore e.1 ∧ HasNoUnderscore e.2.name ∧
    (∀ ns ∈ e.2.schemaName, HasNoUnderscore ns) ∧ ∀ c ∈ e.2.columns, HasNoUnderscore c.name

instance (s : Schema) : Decidable s.HasPlainNames :=
  inferInstanceAs (Decidable (∀ e ∈ s.tables.entries, HasNoUnderscore e.1 ∧
    HasNoUnderscore e.2.name ∧ (∀ ns ∈ e.2.schemaName, HasNoUnderscore ns) ∧
      ∀ c ∈ e.2.columns, HasNoUnderscore c.name))

variable {config : Config} {s : Schema} {found : Findings} {a : Association}

theorem hasNoUnderscore_fullName {t : Table} (hname : HasNoUnderscore t.name)
    (hschema : ∀ ns ∈ t.schemaName, HasNoUnderscore ns) : HasNoUnderscore t.fullName := by
  unfold Table.fullName
  cases hns : t.schemaName with
  | none => exact hname
  | some ns => simp [HasNoUnderscore, hschema ns hns, hname]

/-- The names of a reported pair are names of the schema. -/
theorem Schema.HasPlainNames.of_reported {namer : Namer} (hplain : s.HasPlainNames)
    (h : (analyze config namer s).outcome = .ok found) (ha : a ∈ found.associations) :
    a.HasPlainNames := by
  have hproposed := mem_proposedPairs_of_reported h ha
  obtain ⟨t, ht, hcolumn⟩ := has_child_of_mem_proposals hproposed
  obtain ⟨key, p, hp, hparent, -⟩ :=
    exists_parent_of_mem_proposals (defect?_eq_none_of_ok h) hproposed
  obtain ⟨hkey, -, -, hcolumns⟩ := hplain _ (Schema.table?_eq_some_iff.mp ht)
  obtain ⟨-, hname, hschema, -⟩ := hplain _ (Schema.table?_eq_some_iff.mp hp)
  obtain ⟨c, hc, hcname⟩ := Table.hasColumn_iff.mp hcolumn
  exact ⟨hkey, hcname ▸ hcolumns c hc, hparent ▸ hasNoUnderscore_fullName hname hschema⟩

/-- In a schema without a defect whose names have no underscores the customary names keep apart what
differs: two reported pairs are in one key exactly if they have the same child and parents in the same
table. -/
theorem one_key_iff_same_reference (config : Config) (hs : s.defect? = none)
    (hplain : s.HasPlainNames) :
    ∃ found, (analyze config .conventional s).outcome = .ok found ∧
      ∀ j ∈ found.keys, ∀ k ∈ found.keys, ∀ a ∈ j.pairs, ∀ b ∈ k.pairs,
        j = k ↔ a.child = b.child ∧ a.parent.table = b.parent.table := by
  obtain ⟨found, hok⟩ := exists_ok_of_sound config .conventional hs
  have hgroups := (groups_and_gains_of_ok hok).1
  refine ⟨found, hok, fun j hj k hk a ha b hb => ?_⟩
  have hnameOf {i : ImpliedKey} (hi : i ∈ found.keys) {c : Association} (hc : c ∈ i.pairs) :
      c.HasPlainNames ∧ Namer.conventional c.parent c.child = i.name :=
    ⟨hplain.of_reported hok (Findings.mem_associations.mpr ⟨i, hi, hc⟩),
      ((hgroups.mem_pairs i hi c).mp hc).2⟩
  obtain ⟨haplain, haname⟩ := hnameOf hj ha
  obtain ⟨hbplain, hbname⟩ := hnameOf hk hb
  have hsame : j.name = k.name ↔ a.SameReference b := by
    rw [← haname, ← hbname, Association.conventional_eq_iff haplain hbplain]
  constructor
  · intro hjk
    obtain ⟨hchild, hparent⟩ := hsame.mp (congrArg ImpliedKey.name hjk)
    exact ⟨hchild, hparent⟩
  · intro hpair
    exact hgroups.eq_of_name_eq hj hk (hsame.mpr ⟨hpair.1, hpair.2⟩)

/-- Books are known by title and copy, and loans name a book and a reader. -/
def lending : Schema :=
  let columns (names : List String) : List Column :=
    names.map fun name => { name, type := .integer none }
  Schema.addTable (Schema.addTable (Schema.addTable { version := "1.0" }
    { name := "books", columns := columns ["title", "copy"],
      constraints := [.primaryKey ["title", "copy"]] })
    { name := "readers", columns := columns ["id"], constraints := [.primaryKey ["id"]] })
    { name := "loans", columns := columns ["bookId", "readerId"] }

/-- The loans refer to both key columns of the books under one name, and to the readers under
another. -/
theorem one_key_iff_same_reference_lending :
    lending.defect? = none ∧ lending.HasPlainNames ∧
    ∃ found, (analyze {} .conventional lending).outcome = .ok found ∧
      found.keys.map (·.pairs.length) = [2, 1] ∧
      ∀ j ∈ found.keys, ∀ k ∈ found.keys, ∀ a ∈ j.pairs, ∀ b ∈ k.pairs,
        j = k ↔ a.child = b.child ∧ a.parent.table = b.parent.table := by
  have hs : lending.defect? = none := by decide +kernel
  have hplain : lending.HasPlainNames := by decide +kernel
  have hfound := outcome_eq_of_perm {} .conventional hs
    [⟨"fk_loans_bookId_books", [⟨⟨"books", "copy"⟩, ⟨"loans", "bookId"⟩⟩,
        ⟨⟨"books", "title"⟩, ⟨"loans", "bookId"⟩⟩]⟩,
      ⟨"fk_loans_readerId_readers", [⟨⟨"readers", "id"⟩, ⟨"loans", "readerId"⟩⟩]⟩]
    (by decide +kernel) (by decide +kernel)
  obtain ⟨found, hok, hkeys⟩ := one_key_iff_same_reference {} hs hplain
  refine ⟨hs, hplain, found, hok, ?_, hkeys⟩
  cases hok.symm.trans hfound
  rfl

end ImpliedKeys
