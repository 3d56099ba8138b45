import ImpliedKeys.Session
import ImpliedKeys.Proofs.Analysis.Direction
import ImpliedKeys.Proofs.Analysis.Findings
import ImpliedKeys.Proofs.Analysis.Resemblance

/-!
# Declaring implied keys

Foreign keys that are appended to the tables of a schema take from its findings the pairs that they
connect, in either direction, and nothing else. So once every pair that was found is declared there
is nothing left to find.
-/
namespace ImpliedKeys

/-- A foreign key that is to be appended to the table stored under a key. -/
structure Declaration where
  table : String
  columns : List String
  referencedTable : String
  referencedColumns : List String

variable {config : Config} {namer : Namer} {s : Schema} {ds : List Declaration} {d : Declaration}
variable {t : Table} {key : String} {parent child : ColumnRef} {a : Association}

namespace Declaration

def constraint (d : Declaration) : Constraint :=
  .foreignKey d.columns d.referencedTable d.referencedColumns

def ofAssociation (a : Association) : Declaration :=
  ⟨a.child.table, [a.child.column], a.parent.table, [a.parent.column]⟩

/-- The declaration has the child and the parent at one place. -/
def Connects (d : Declaration) (s : Schema) (parent child : ColumnRef) : Prop :=
  child.table = d.table ∧ ∃ t, s.table? d.table = some t ∧
    s.resolve? t d.referencedTable = some parent.table ∧
    ∃ i : Nat, d.columns[i]? = some child.column ∧ d.referencedColumns[i]? = some parent.column

end Declaration

def Table.addConstraints (t : Table) (cs : List Constraint) : Table :=
  { t with constraints := t.constraints ++ cs }

/-- Further foreign keys leave the columns, the primary keys and the unique columns of a table. -/
theorem Table.resembles_addConstraints {cs : List Constraint}
    (h : ∀ c ∈ cs, ∃ columns written others, c = .foreignKey columns written others) :
    t.Resembles (t.addConstraints cs) where
  columns _ := Iff.rfl
  comparable := (Resembles.refl t).comparable
  firstKey n := by
    have hnone : cs.findSome? (·.primaryKey?) = none := by
      rw [List.findSome?_eq_none_iff]
      intro c hc
      obtain ⟨_, _, _, rfl⟩ := h c hc
      rfl
    unfold primaryKey? addConstraints
    rw [List.findSome?_append, hnone, Option.or_none]
  anyKey n := by
    have hnone (key : List String) : .primaryKey key ∉ cs := by
      intro hkey
      obtain ⟨_, _, _, hc⟩ := h _ hkey
      cases hc
    simp only [inPrimaryKey_iff, addConstraints, List.mem_append, hnone, or_false]
  unique n := by
    have hnone : .unique [n] ∉ cs := by
      intro hunique
      obtain ⟨_, _, _, hc⟩ := h _ hunique
      cases hc
    simp only [mem_uniqueColumns, addConstraints, List.mem_append, hnone, or_false]

namespace Schema

def declare (s : Schema) (d : Declaration) : Schema :=
  (Edit.addConstraint d.table d.constraint).apply s

def declareAll (s : Schema) (ds : List Declaration) : Schema := ds.foldl declare s

theorem outline_declare : (s.declare d).outline = s.outline :=
  outline_modifyTable fun _ => ⟨rfl, rfl⟩

theorem table?_declare : (s.declare d).table? key = (s.table? key).map
    (·.addConstraints (if d.table = key then [d.constraint] else [])) := by
  have hget : (s.declare d).table? key = (s.table? key).map fun t =>
      if key = d.table then t.addConstraints [d.constraint] else t := table?_modifyTable ..
  rw [hget]
  by_cases hkey : key = d.table
  · simp [hkey]
  · simp [hkey, Ne.symm hkey, Table.addConstraints]

theorem outline_declareAll : (s.declareAll ds).outline = s.outline := by
  induction ds generalizing s with
  | nil => rfl
  | cons d ds ih => exact ih.trans outline_declare

/-- Each table keeps what it has and gets the keys that are declared for it. -/
theorem table?_declareAll : (s.declareAll ds).table? key = (s.table? key).map
    (·.addConstraints ((ds.filter (·.table = key)).map (·.constraint))) := by
  induction ds generalizing s with
  | nil => simp [declareAll, Table.addConstraints]
  | cons d ds ih =>
    have hcons : s.declareAll (d :: ds) = (s.declare d).declareAll ds := rfl
    rw [hcons, ih, table?_declare, Option.map_map]
    by_cases hkey : d.table = key <;> simp [hkey, Function.comp_def, Table.addConstraints]

theorem resolve?_declareAll {cs : List Constraint} {written : String} :
    (s.declareAll ds).resolve? (t.addConstraints cs) written = s.resolve? t written :=
  resolve?_of_outline_eq outline_declareAll rfl written

theorem resembles_declareAll : s.Resembles (s.declareAll ds) where
  outline_eq := outline_declareAll.symm
  tables {key t u} ht hu := by
    rw [table?_declareAll, ht, Option.map_some] at hu
    cases hu
    refine Table.resembles_addConstraints fun c hc => ?_
    obtain ⟨d, -, rfl⟩ := List.mem_map.mp hc
    exact ⟨_, _, _, rfl⟩

/-- A constraint of the table stored under a key was there or is declared. -/
theorem table?_declareAll_some (ds : List Declaration) (ht : s.table? key = some t) :
    ∃ cs, (s.declareAll ds).table? key = some (t.addConstraints cs) ∧
      ∀ c, c ∈ (t.addConstraints cs).constraints ↔
        c ∈ t.constraints ∨ ∃ d ∈ ds, d.table = key ∧ d.constraint = c := by
  refine ⟨_, by rw [table?_declareAll, ht, Option.map_some], fun c => ?_⟩
  simp [Table.addConstraints, and_assoc]

theorem declares_declareAll : (s.declareAll ds).Declares parent child ↔
    s.Declares parent child ∨ ∃ d ∈ ds, d.Connects s parent child := by
  constructor
  · intro hdeclared
    obtain ⟨u, columns, written, others, hu, hkey, hresolved, hplace⟩ := hdeclared
    obtain ⟨t, ht, -⟩ := resembles_declareAll.symm.table? hu
    obtain ⟨cs, ht', hmem⟩ := table?_declareAll_some ds ht
    rw [hu] at ht'
    cases ht'
    rw [resolve?_declareAll] at hresolved
    rcases (hmem _).mp hkey with hold | ⟨d, hd, htable, hc⟩
    · exact .inl ⟨t, columns, written, others, ht, hold, hresolved, hplace⟩
    · obtain ⟨rfl, rfl, rfl⟩ := Constraint.foreignKey.inj hc
      exact .inr ⟨d, hd, htable.symm, t, htable ▸ ht, hresolved, hplace⟩
  · intro hdeclared
    rcases hdeclared with hold | hnew
    · obtain ⟨t, columns, written, others, ht, hkey, hresolved, hplace⟩ := hold
      obtain ⟨cs, ht', hmem⟩ := table?_declareAll_some ds ht
      exact ⟨_, columns, written, others, ht', (hmem _).mpr (.inl hkey),
        resolve?_declareAll.trans hresolved, hplace⟩
    · obtain ⟨d, hd, htable, t, ht, hresolved, hplace⟩ := hnew
      rw [← htable] at ht
      obtain ⟨cs, ht', hmem⟩ := table?_declareAll_some ds ht
      exact ⟨_, _, _, _, ht', (hmem _).mpr (.inr ⟨d, hd, htable.symm, rfl⟩),
        resolve?_declareAll.trans hresolved, hplace⟩

/-- Some declaration connects the columns of a pair, in one direction or the other. -/
def Covered (s : Schema) (ds : List Declaration) (a : Association) : Prop :=
  ∃ d ∈ ds, d.Connects s a.parent a.child ∨ d.Connects s a.child a.parent

theorem covered_flip : s.Covered ds a.flip ↔ s.Covered ds a := by
  simp only [Covered, Association.flip, or_comm]

theorem mem_proposedPairs_declareAll :
    a ∈ proposedPairs config (s.declareAll ds) ↔
      a ∈ proposedPairs config s ∧ ¬ s.Covered ds a := by
  constructor
  · intro ha
    have hadmissible := (mem_proposals.mp ha).2
    have hundeclared := hadmissible.undeclared
    have hunreversed := hadmissible.unreversed
    rw [declares_declareAll, not_or] at hundeclared hunreversed
    refine ⟨resembles_declareAll.symm.mem_proposedPairs ha hundeclared.1 hunreversed.1, ?_⟩
    intro hcovered
    obtain ⟨d, hd, hconnects | hconnects⟩ := hcovered
    · exact hundeclared.2 ⟨d, hd, hconnects⟩
    · exact hunreversed.2 ⟨d, hd, hconnects⟩
  · intro ha
    obtain ⟨ha, huncovered⟩ := ha
    have hadmissible := (mem_proposals.mp ha).2
    refine resembles_declareAll.mem_proposedPairs ha (fun hdeclared => ?_) (fun hdeclared => ?_)
    · rcases declares_declareAll.mp hdeclared with hold | ⟨d, hd, hnew⟩
      · exact hadmissible.undeclared hold
      · exact huncovered ⟨d, hd, .inl hnew⟩
    · rcases declares_declareAll.mp hdeclared with hold | ⟨d, hd, hnew⟩
      · exact hadmissible.unreversed hold
      · exact huncovered ⟨d, hd, .inr hnew⟩

theorem mem_reportedPairs_declareAll :
    a ∈ reportedPairs config (s.declareAll ds) ↔
      a ∈ reportedPairs config s ∧ ¬ s.Covered ds a := by
  -- to be covered does not depend on the direction, so the direction filter may come first
  rw [mem_reportedPairs, mem_reportedPairs, tableCount_eq_of_outline_eq outline_declareAll,
    keptPairs, keptPairs, mem_keepOneDirection_iff_of_flip (p := fun a => ¬ s.Covered ds a)
      (fun _ => not_congr covered_flip) (fun _ => mem_proposedPairs_declareAll), and_assoc]

/-- What a constraint needs is still there when foreign keys are declared. -/
theorem Supports.declareAll {c : Constraint} {cs : List Constraint} (h : s.Supports t c) :
    (s.declareAll ds).Supports (t.addConstraints cs) c := by
  refine h.mono (fun _ hn => hn) fun columns written others hc parent hparent => ?_
  obtain ⟨key, hkey, hparent⟩ := Option.bind_eq_some_iff.mp hparent
  obtain ⟨cs, hparent', -⟩ := table?_declareAll_some ds hparent
  refine ⟨parent.addConstraints cs, ?_, fun _ hn => hn⟩
  rw [referenced?, resolve?_declareAll, hkey]
  exact hparent'

theorem defect?_declareAll (hs : s.defect? = none)
    (hds : ∀ d ∈ ds, ∀ t, s.table? d.table = some t → s.Supports t d.constraint) :
    (s.declareAll ds).defect? = none := by
  rw [defect?_eq_none_iff] at hs ⊢
  intro key u hu
  obtain ⟨t, ht, -⟩ := resembles_declareAll.symm.table? hu
  obtain ⟨cs, ht', hmem⟩ := table?_declareAll_some ds ht
  rw [hu] at ht'
  cases ht'
  obtain ⟨hindexes, hconstraints⟩ := hs key t ht
  refine ⟨hindexes, fun c hc => ?_⟩
  rcases (hmem c).mp hc with hold | ⟨d, hd, rfl, rfl⟩
  · exact (hconstraints c hold).declareAll
  · exact (hds d hd t ht).declareAll

end Schema

namespace Declaration

/-- A kept pair is connected by its own declaration. -/
theorem connects_ofAssociation (ha : a ∈ keptPairs config s) :
    (ofAssociation a).Connects s a.parent a.child := by
  have hadmissible := admissible_of_mem_keptPairs ha
  obtain ⟨t, ht⟩ := Schema.hasTable_iff.mp hadmissible.childStored
  exact ⟨rfl, t, ht, Schema.resolve?_of_hasTable hadmissible.parentStored, 0, rfl, rfl⟩

/-- In a well-keyed schema without a defect the columns of a kept pair may be declared. -/
theorem supports_ofAssociation (hkeyed : s.WellKeyed) (hs : s.defect? = none)
    (ha : a ∈ keptPairs config s) (ht : s.table? a.child.table = some t) :
    s.Supports t (ofAssociation a).constraint := by
  have hproposable := ((mem_keptPairs_iff hkeyed hs).mp ha).1
  obtain ⟨child, hchild, hcolumn⟩ := hproposable.hasChild
  obtain ⟨parent, hparent, hmay, -⟩ := hproposable.candidate
  rw [ht] at hchild
  cases hchild
  constructor
  · intro c hc
    cases List.mem_singleton.mp hc
    exact hcolumn
  · intro columns written others hc
    obtain ⟨rfl, rfl, rfl⟩ := Constraint.foreignKey.inj hc
    have hstored : s.hasTable a.parent.table = true := Schema.hasTable_iff.mpr ⟨parent, hparent⟩
    refine ⟨rfl, parent, ?_, fun c hc => ?_⟩
    · rw [Schema.referenced?, ofAssociation, Schema.resolve?_of_hasTable hstored]
      exact hparent
    · cases List.mem_singleton.mp hc
      exact hmay.hasColumn hs hparent

end Declaration

theorem Findings.Groups.eq_empty {found : Findings} {reported : List Association}
    (h : found.Groups namer reported) (hnone : ∀ a, a ∉ reported) : found = {} := by
  have hkeys : found.keys = [] := by
    rw [List.eq_nil_iff_forall_not_mem]
    intro k hk
    obtain ⟨a, ha⟩ := List.exists_mem_of_ne_nil _ (h.pairs_ne_nil hk)
    exact hnone a ((h.mem_pairs k hk a).mp ha).1
  cases found
  cases hkeys
  rfl

/-- Declared foreign keys take exactly the pairs that they connect from the findings, whatever the
direction of a pair. To declare all that was found leaves no defect and nothing to find. -/
theorem declaring_takes_covered (config : Config) (namer : Namer) (hs : s.defect? = none) :
    (∀ ds, (s.declareAll ds).defect? = none →
      ∃ found left, (analyze config namer s).outcome = .ok found ∧
        (analyze config namer (s.declareAll ds)).outcome = .ok left ∧
        ∀ a, a ∈ left.associations ↔ a ∈ found.associations ∧ ¬ s.Covered ds a) ∧
    (s.WellKeyed → ∃ found, (analyze config namer s).outcome = .ok found ∧
      (s.declareAll (found.associations.map .ofAssociation)).defect? = none ∧
      (analyze config namer (s.declareAll (found.associations.map .ofAssociation))).outcome =
        .ok {}) := by
  obtain ⟨found, hfound⟩ := exists_ok_of_sound config namer hs
  have hgroups := (groups_and_gains_of_ok hfound).1
  constructor
  · intro ds hds
    obtain ⟨left, hleft⟩ := exists_ok_of_sound config namer hds
    refine ⟨found, left, hfound, hleft, fun a => ?_⟩
    rw [(groups_and_gains_of_ok hleft).1.mem_associations, hgroups.mem_associations,
      Schema.mem_reportedPairs_declareAll]
  · intro hkeyed
    have hkept (a : Association) (ha : a ∈ found.associations) : a ∈ keptPairs config s :=
      (mem_reportedPairs.mp (hgroups.mem_associations.mp ha)).2
    have hsound : (s.declareAll (found.associations.map .ofAssociation)).defect? = none := by
      refine Schema.defect?_declareAll hs fun d hd t ht => ?_
      obtain ⟨a, ha, rfl⟩ := List.mem_map.mp hd
      exact Declaration.supports_ofAssociation hkeyed hs (hkept a ha) ht
    obtain ⟨left, hleft⟩ := exists_ok_of_sound config namer hsound
    have hempty : left = {} := by
      refine (groups_and_gains_of_ok hleft).1.eq_empty fun a ha => ?_
      obtain ⟨hreported, huncovered⟩ := Schema.mem_reportedPairs_declareAll.mp ha
      have ha := hgroups.mem_associations.mpr hreported
      have hconnects := Declaration.connects_ofAssociation (hkept a ha)
      exact huncovered ⟨_, List.mem_map_of_mem ha, .inl hconnects⟩
    exact ⟨found, hfound, hsound, hempty ▸ hleft⟩

/-- The shop's account settings refer to the accounts, against the direction that is found. -/
def settingsDeclaration : Declaration :=
  ⟨"account_settings", ["account_id"], "accounts", ["account_id"]⟩

/-- In the shop a declared key takes the pair that it connects backwards. -/
theorem declaring_takes_covered_shop :
    shop.defect? = none ∧ (shop.declareAll [settingsDeclaration]).defect? = none ∧
    shop.WellKeyed ∧
    (∃ found left, (analyze {} .conventional shop).outcome = .ok found ∧
      (analyze {} .conventional (shop.declareAll [settingsDeclaration])).outcome = .ok left ∧
      ∀ a, a ∈ left.associations ↔
        a ∈ found.associations ∧ ¬ shop.Covered [settingsDeclaration] a) ∧
    ∃ found, (analyze {} .conventional shop).outcome = .ok found ∧
      (shop.declareAll (found.associations.map .ofAssociation)).defect? = none ∧
      (analyze {} .conventional
        (shop.declareAll (found.associations.map .ofAssociation))).outcome = .ok {} := by
  have hdeclared : (shop.declareAll [settingsDeclaration]).defect? = none := by decide +kernel
  have hkeyed : shop.WellKeyed := by decide +kernel
  obtain ⟨hcovered, hall⟩ := declaring_takes_covered {} .conventional shop_sound
  exact ⟨shop_sound, hdeclared, hkeyed, hcovered _ hdeclared, hall hkeyed⟩

example : keptPairs {} (shop.declareAll [settingsDeclaration]) =
    [⟨⟨"account_settings", "account_id"⟩, ⟨"orders", "account_id"⟩⟩] := by decide +kernel

end ImpliedKeys
