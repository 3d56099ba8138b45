import ImpliedKeys.Session
import ImpliedKeys.Proofs.Analysis.Correspondence
import ImpliedKeys.Proofs.Analysis.Switches
import ImpliedKeys.Proofs.Schema.Resolution

/-!
# A new column

A column that is added to a table under a new name is in no key, since a schema without a defect has
the columns of its keys already. So it may become the child of other columns and nothing else: the
findings of before are those of after, without the pairs in which it is the child.
-/
namespace ImpliedKeys

variable {config : Config} {namer : Namer} {s : Schema} {key : String} {t : Table} {c : Column}
variable {r parent child : ColumnRef} {a : Association}

namespace Table

def addColumns (t : Table) (cs : List Column) : Table := { t with columns := t.columns ++ cs }

/-- A column of another name is found as before. -/
theorem column?_addColumns {cs : List Column} {n : String} (hn : ∀ c ∈ cs, c.name ≠ n) :
    (t.addColumns cs).column? n = t.column? n := by
  have hnone : cs.find? (·.name = n) = none := by simpa using hn
  unfold column? addColumns
  rw [List.find?_append, hnone, Option.or_none]

theorem hasColumn_addColumns {cs : List Column} {n : String} (h : t.hasColumn n = true) :
    (t.addColumns cs).hasColumn n = true := by
  rw [hasColumn_iff] at h ⊢
  obtain ⟨c, hc, hname⟩ := h
  exact ⟨c, List.mem_append_left _ hc, hname⟩

end Table

namespace Schema

def addColumn (s : Schema) (key : String) (c : Column) : Schema := (Edit.addColumn key c).apply s

theorem outline_addColumn (s : Schema) (key : String) (c : Column) :
    (s.addColumn key c).outline = s.outline :=
  outline_modifyTable fun _ => ⟨rfl, rfl⟩

theorem table?_addColumn {other : String} : (s.addColumn key c).table? other =
    (s.table? other).map (·.addColumns (if key = other then [c] else [])) := by
  have hget : (s.addColumn key c).table? other = (s.table? other).map fun t =>
      if other = key then t.addColumns [c] else t := table?_modifyTable ..
  rw [hget]
  by_cases hkey : other = key
  · simp [hkey]
  · simp [hkey, Ne.symm hkey, Table.addColumns]

theorem corresponds_addColumn (hold : r ≠ ⟨key, c.name⟩) :
    s.Corresponds (s.addColumn key c) r r where
  name_eq := rfl
  column?_eq := by
    unfold column?
    rw [table?_addColumn, Option.bind_map]
    refine Option.bind_congr fun t _ => (Table.column?_addColumns fun b hb hname => ?_).symm
    split at hb
    · next hkey =>
      cases List.mem_singleton.mp hb
      exact hold (congr (congrArg ColumnRef.mk hkey.symm) hname.symm)
    · cases hb
  core_eq := by
    rw [table?_addColumn, Option.map_map]
    rfl

theorem declares_addColumn (hparent : parent ≠ ⟨key, c.name⟩) (hchild : child ≠ ⟨key, c.name⟩) :
    (s.addColumn key c).Declares parent child ↔ s.Declares parent child := by
  have hparent := corresponds_addColumn (s := s) hparent
  have hchild := corresponds_addColumn (s := s) hchild
  constructor
  · intro hdeclared
    refine hparent.symm.declares hchild.symm hdeclared fun u t _ _ _ hu ht _ hresolved => ?_
    rwa [resolve?_eq_of_outline_eq (outline_addColumn ..).symm ht hu]
  · intro hdeclared
    refine hparent.declares hchild hdeclared fun t u _ _ _ ht hu _ hresolved => ?_
    rwa [resolve?_eq_of_outline_eq (outline_addColumn ..) hu ht]

/-- A foreign key refers to the same table, which may have the new column. -/
theorem referenced?_addColumn {other written : String} {u parent : Table}
    (ht : s.table? other = some t) (hu : (s.addColumn key c).table? other = some u)
    (h : s.referenced? t written = some parent) :
    ∃ cs, (s.addColumn key c).referenced? u written = some (parent.addColumns cs) := by
  obtain ⟨found, hfound, hparent⟩ := Option.bind_eq_some_iff.mp h
  refine ⟨if key = found then [c] else [], ?_⟩
  rw [referenced?, resolve?_eq_of_outline_eq (outline_addColumn ..) hu ht, hfound, Option.bind_some,
    table?_addColumn, hparent, Option.map_some]

/-- No constraint or index loses a column that it names. -/
theorem defect?_addColumn (hs : s.defect? = none) : (s.addColumn key c).defect? = none := by
  rw [defect?_eq_none_iff] at hs ⊢
  intro other u hu
  have hstored := hu
  rw [table?_addColumn] at hstored
  obtain ⟨t, ht, rfl⟩ := Option.map_eq_some_iff.mp hstored
  obtain ⟨hindexes, hconstraints⟩ := hs other t ht
  refine ⟨fun i hi n hn => Table.hasColumn_addColumns (hindexes i hi n hn), fun d hd => ?_⟩
  refine (hconstraints d hd).mono (fun _ => Table.hasColumn_addColumns) ?_
  intro columns written others _ parent hparent
  obtain ⟨cs, hother⟩ := referenced?_addColumn ht hu hparent
  exact ⟨_, hother, fun _ => Table.hasColumn_addColumns⟩

/-- A column that a table lacks is no column of the schema. -/
theorem Has.ne_of_hasColumn_eq_false (hr : s.Has r) (ht : s.table? key = some t)
    (hnew : t.hasColumn c.name = false) : r ≠ ⟨key, c.name⟩ := by
  rintro rfl
  obtain ⟨u, hu, hcolumn⟩ := hr
  rw [ht] at hu
  cases hu
  rw [hnew] at hcolumn
  cases hcolumn

end Schema

theorem proposable_addColumn_iff (hparent : parent ≠ ⟨key, c.name⟩)
    (hchild : child ≠ ⟨key, c.name⟩) :
    Proposable config (s.addColumn key c) parent child ↔ Proposable config s parent child := by
  have hleads := Schema.sharedLeads_of_outline_eq (s.outline_addColumn key c)
    config.maxTablePrefixes
  have hdeclared := Schema.declares_addColumn (s := s) hparent hchild
  have hreverse := Schema.declares_addColumn (s := s) hchild hparent
  have hparent := Schema.corresponds_addColumn (s := s) hparent
  have hchild := Schema.corresponds_addColumn (s := s) hchild
  constructor
  · intro h
    exact h.of_corresponds hparent.symm hchild.symm (mt hdeclared.mpr h.undeclared)
      (mt hreverse.mpr h.unreversed) id fun lead hlead => hleads ▸ hlead
  · intro h
    exact h.of_corresponds hparent hchild (mt hdeclared.mp h.undeclared)
      (mt hreverse.mp h.unreversed) id fun lead hlead => hleads ▸ hlead

/-- A new column is in no key and unique by nothing. -/
theorem Proposable.parent_ne_of_addColumn (hs : s.defect? = none) (ht : s.table? key = some t)
    (hnew : t.hasColumn c.name = false) (h : Proposable config (s.addColumn key c) parent child) :
    parent ≠ ⟨key, c.name⟩ := by
  rintro rfl
  obtain ⟨u, hu, hmay, -⟩ := h.candidate
  rw [Schema.table?_addColumn, ht, Option.map_some] at hu
  cases hu
  -- adding a column leaves the keys as they are
  have hmay : t.MayBeParent config c.name := hmay
  rw [hmay.hasColumn hs ht] at hnew
  cases hnew

theorem mem_keptPairs_addColumn (hkeyed : s.WellKeyed) (hs : s.defect? = none)
    (ht : s.table? key = some t) (hnew : t.hasColumn c.name = false)
    (hchild : a.child ≠ ⟨key, c.name⟩) :
    a ∈ keptPairs config (s.addColumn key c) ↔ a ∈ keptPairs config s := by
  have hkeyed' : (s.addColumn key c).WellKeyed :=
    hkeyed.of_outline_eq (s.outline_addColumn key c).symm
  rw [mem_keptPairs_iff hkeyed' (Schema.defect?_addColumn hs), mem_keptPairs_iff hkeyed hs]
  by_cases hparent : a.parent = ⟨key, c.name⟩
  · -- the new column is the parent of no proposable pair, neither after nor before
    constructor
    · intro h
      exact absurd hparent (h.1.parent_ne_of_addColumn hs ht hnew)
    · intro h
      obtain ⟨u, hu, hmay, -⟩ := h.1.candidate
      have hhas : s.Has a.parent := ⟨u, hu, hmay.hasColumn hs hu⟩
      exact absurd hparent (hhas.ne_of_hasColumn_eq_false ht hnew)
  · rw [proposable_addColumn_iff hparent hchild, proposable_addColumn_iff hchild hparent]

theorem mem_reportedPairs_addColumn (hkeyed : s.WellKeyed) (hs : s.defect? = none)
    (ht : s.table? key = some t) (hnew : t.hasColumn c.name = false) :
    a ∈ reportedPairs config s ↔
      a ∈ reportedPairs config (s.addColumn key c) ∧ a.child ≠ ⟨key, c.name⟩ := by
  rw [mem_reportedPairs, mem_reportedPairs,
    Schema.tableCount_eq_of_outline_eq (s.outline_addColumn key c), and_assoc]
  refine and_congr_right fun _ => ?_
  constructor
  · intro hkept
    have hhas := ((mem_keptPairs_iff hkeyed hs).mp hkept).1.hasChild
    have hchild := hhas.ne_of_hasColumn_eq_false ht hnew
    exact ⟨(mem_keptPairs_addColumn hkeyed hs ht hnew hchild).mpr hkept, hchild⟩
  · intro hkept
    exact (mem_keptPairs_addColumn hkeyed hs ht hnew hkept.2).mp hkept.1

/-- The child of a pair is not a given column. -/
abbrev Association.Spares (r : ColumnRef) (a : Association) : Prop := a.child ≠ r

/-- A new column makes no defect and is the parent of no pair that is found. Without the pairs in
which it is the child, the findings are those of before, names and directions included. -/
theorem findings_restrict_addColumn (config : Config) (namer : Namer) (hkeyed : s.WellKeyed)
    (hs : s.defect? = none) (ht : s.table? key = some t) (hnew : t.hasColumn c.name = false) :
    (s.addColumn key c).defect? = none ∧
    ∃ found more, (analyze config namer s).outcome = .ok found ∧
      (analyze config namer (s.addColumn key c)).outcome = .ok more ∧
      more.restrict (Association.Spares ⟨key, c.name⟩) = found ∧
      (∀ a ∈ more.associations, a.parent ≠ ⟨key, c.name⟩) ∧
      ∀ a, a ∈ found.associations ↔ a ∈ more.associations ∧ a.child ≠ ⟨key, c.name⟩ := by
  have hs' : (s.addColumn key c).defect? = none := Schema.defect?_addColumn hs
  have hkeyed' : (s.addColumn key c).WellKeyed :=
    hkeyed.of_outline_eq (s.outline_addColumn key c).symm
  obtain ⟨found, hfound⟩ := exists_ok_of_sound config namer hs
  obtain ⟨more, hmore⟩ := exists_ok_of_sound config namer hs'
  have hgroups := (groups_and_gains_of_ok hfound).1
  have hgroups' := (groups_and_gains_of_ok hmore).1
  refine ⟨hs', found, more, hfound, hmore, ?_, fun a ha => ?_, fun a => ?_⟩
  · have hrestricted := hgroups'.restrict (p := Association.Spares ⟨key, c.name⟩)
      fun _ => mem_reportedPairs_addColumn hkeyed hs ht hnew
    exact hrestricted.unique hgroups
  · have hkept := (mem_reportedPairs.mp (hgroups'.mem_associations.mp ha)).2
    exact ((mem_keptPairs_iff hkeyed' hs').mp hkept).1.parent_ne_of_addColumn hs ht hnew
  · rw [hgroups.mem_associations, hgroups'.mem_associations]
    exact mem_reportedPairs_addColumn hkeyed hs ht hnew

/-- The shop's orders get a column for the order that they follow. -/
def followedOrder : Column := { name := "followed_order_id", type := .integer none }

/-- The shop finds the orders that others follow, and what it found before. -/
theorem findings_restrict_addColumn_shop :
    shop.WellKeyed ∧ shop.defect? = none ∧
    (∃ t, shop.table? "orders" = some t ∧ t.hasColumn followedOrder.name = false) ∧
    ∃ found more, (analyze {} .conventional shop).outcome = .ok found ∧
      (analyze {} .conventional (shop.addColumn "orders" followedOrder)).outcome = .ok more ∧
      more.restrict (Association.Spares ⟨"orders", "followed_order_id"⟩) = found := by
  have hkeyed : shop.WellKeyed := by decide +kernel
  have hstored : (shop.table? "orders").map (·.hasColumn followedOrder.name) = some false := by
    decide +kernel
  obtain ⟨t, ht, hnew⟩ := Option.map_eq_some_iff.mp hstored
  obtain ⟨-, found, more, hfound, hmore, hrestrict, -⟩ :=
    findings_restrict_addColumn {} .conventional hkeyed shop_sound ht hnew
  exact ⟨hkeyed, shop_sound, ⟨t, ht, hnew⟩, found, more, hfound, hmore, hrestrict⟩

example : keptPairs {} (shop.addColumn "orders" followedOrder) =
    keptPairs {} shop ++ [⟨⟨"orders", "id"⟩, ⟨"orders", "followed_order_id"⟩⟩] := by
  decide +kernel

end ImpliedKeys
