import ImpliedKeys.Proofs.Analysis.Proposal
import ImpliedKeys.Proofs.Schema.Comparability
import ImpliedKeys.Proofs.Schema.Outline

/-!
# Schemas that match names alike

Which columns match, which may be parents and which types fit is read off few facts about each
table. Schemas that agree on these have the same proposals, up to the keys that are declared: a pair
that is proposed in one is proposed in the other unless that one declares it.
-/
namespace ImpliedKeys

variable {config : Config} {s s' : Schema} {t u : Table} {key column : String}
variable {parent child : ColumnRef}

/-- Two tables agree on their columns, as far as these are named and compared, and on which of them
are in the first primary key, in some primary key, and unique by themselves. -/
structure Table.Resembles (t u : Table) : Prop where
  columns : ∀ n, t.hasColumn n = true ↔ u.hasColumn n = true
  comparable : ∀ {n a b}, t.column? n = some a → u.column? n = some b →
    a.type.comparable b.type = true
  firstKey : ∀ n, (∃ key, t.primaryKey? = some key ∧ n ∈ key) ↔
    ∃ key, u.primaryKey? = some key ∧ n ∈ key
  anyKey : ∀ n, t.inPrimaryKey n = true ↔ u.inPrimaryKey n = true
  unique : ∀ n, n ∈ t.uniqueColumns ↔ n ∈ u.uniqueColumns

namespace Table.Resembles

theorem refl (t : Table) : t.Resembles t where
  columns _ := Iff.rfl
  comparable {_ a b} ha hb := by
    rw [ha] at hb
    cases hb
    exact ColumnType.comparable_refl a.type
  firstKey _ := Iff.rfl
  anyKey _ := Iff.rfl
  unique _ := Iff.rfl

theorem symm (h : t.Resembles u) : u.Resembles t where
  columns n := (h.columns n).symm
  comparable hb ha := ColumnType.comparable_symm (h.comparable ha hb)
  firstKey n := (h.firstKey n).symm
  anyKey n := (h.anyKey n).symm
  unique n := (h.unique n).symm

theorem column? (h : t.Resembles u) {a : Column} (ha : t.column? column = some a) :
    ∃ b, u.column? column = some b ∧ a.type.comparable b.type = true := by
  have hcolumn : u.hasColumn column = true :=
    (h.columns column).mp (Option.isSome_iff_exists.mpr ⟨a, ha⟩)
  obtain ⟨b, hb⟩ := Option.isSome_iff_exists.mp hcolumn
  exact ⟨b, hb, h.comparable ha hb⟩

theorem mayBeParent (h : t.Resembles u) (hparent : t.MayBeParent config column) :
    u.MayBeParent config column := by
  rcases hparent with hkey | ⟨huse, hunique⟩
  · exact .inl ((h.firstKey column).mp hkey)
  · exact .inr ⟨huse, mem_uniqueColumns.mp ((h.unique column).mp (mem_uniqueColumns.mpr hunique))⟩

end Table.Resembles

/-- Two schemas have tables of the same names under the same keys, and these agree. -/
structure Schema.Resembles (s s' : Schema) : Prop where
  outline_eq : s.outline = s'.outline
  tables : ∀ {key t u}, s.table? key = some t → s'.table? key = some u → t.Resembles u

namespace Schema.Resembles

theorem symm (h : s.Resembles s') : s'.Resembles s where
  outline_eq := h.outline_eq.symm
  tables hu ht := (h.tables ht hu).symm

theorem table? (h : s.Resembles s') (ht : s.table? key = some t) :
    ∃ u, s'.table? key = some u ∧ t.Resembles u ∧ t.fullName = u.fullName ∧ t.name = u.name := by
  obtain ⟨u, hu, hschema, hname⟩ := table?_of_outline_eq h.outline_eq ht
  exact ⟨u, hu, h.tables ht hu, Table.fullName_congr hschema hname, hname⟩

theorem has (h : s.Resembles s') {r : ColumnRef} (hr : s.Has r) : s'.Has r := by
  obtain ⟨t, ht, hcolumn⟩ := hr
  obtain ⟨u, hu, hresembles, -⟩ := h.table? ht
  exact ⟨u, hu, (hresembles.columns r.column).mp hcolumn⟩

theorem column? (h : s.Resembles s') {r : ColumnRef} {a : Column} (ha : s.column? r = some a) :
    ∃ b, s'.column? r = some b ∧ a.type.comparable b.type = true := by
  obtain ⟨t, ht, ha⟩ := Option.bind_eq_some_iff.mp ha
  obtain ⟨u, hu, hresembles, -⟩ := h.table? ht
  obtain ⟨b, hb, hab⟩ := hresembles.column? ha
  exact ⟨b, Option.bind_eq_some_iff.mpr ⟨u, hu, hb⟩, hab⟩

theorem comparable (h : s.Resembles s') (hc : s.Comparable parent child) :
    s'.Comparable parent child := by
  obtain ⟨a, b, ha, hb, hab⟩ := hc
  obtain ⟨a', ha', haa'⟩ := h.column? ha
  obtain ⟨b', hb', hbb'⟩ := h.column? hb
  exact ⟨a', b', ha', hb', (ColumnType.comparable_congr haa' hbb').mp hab⟩

theorem mem_matching (h : s.Resembles s') (ht : t.Resembles u) (hname : t.fullName = u.fullName)
    (hchild : child ∈ (Lookup.ofSchema config s).matching t parent) :
    child ∈ (Lookup.ofSchema config s').matching u parent := by
  rw [Lookup.mem_matching] at hchild ⊢
  obtain ⟨hhas, k, hk, hsought⟩ := hchild
  refine ⟨h.has hhas, k, hk, ?_⟩
  rw [Lookup.mem_soughtKeys] at hsought ⊢
  rcases hsought with ⟨hparent, hown⟩ | ⟨hprimary, v, hv, htable⟩
  · exact .inl ⟨h.has hparent, hown⟩
  · obtain ⟨w, hw, -, -, hvw⟩ := h.table? hv
    rw [hname] at hw
    rw [hvw, sharedLeads_of_outline_eq h.outline_eq] at htable
    exact .inr ⟨(ht.anyKey parent.column).mp hprimary, w, hw, htable⟩

/-- What is admissible stays so where no key declares it. -/
theorem admissible (h : s.Resembles s') (ha : Admissible config s parent child)
    (hdeclared : ¬ s'.Declares parent child) (hreverse : ¬ s'.Declares child parent) :
    Admissible config s' parent child where
  distinct := ha.distinct
  undeclared := hdeclared
  unreversed := hreverse
  apart := ha.apart
  parentStored := hasTable_eq_of_outline_eq h.outline_eq _ ▸ ha.parentStored
  childStored := hasTable_eq_of_outline_eq h.outline_eq _ ▸ ha.childStored
  comparable hchecked := h.comparable (ha.comparable hchecked)

/-- A pair that is proposed in one schema is proposed in the other unless that one declares it. -/
theorem mem_proposedPairs (h : s.Resembles s') {a : Association} (ha : a ∈ proposedPairs config s)
    (hdeclared : ¬ s'.Declares a.parent a.child) (hreverse : ¬ s'.Declares a.child a.parent) :
    a ∈ proposedPairs config s' := by
  rw [mem_proposals] at ha ⊢
  obtain ⟨⟨key, t, ht, htable, hparent, hmatch⟩, hadmissible⟩ := ha
  obtain ⟨u, hu, hresembles, hname, -⟩ := h.table? ht
  have hmatch := h.mem_matching hresembles hname hmatch
  exact ⟨⟨key, u, hu, htable.trans hname, hresembles.mayBeParent hparent, hmatch⟩,
    h.admissible hadmissible hdeclared hreverse⟩

end Schema.Resembles

end ImpliedKeys
