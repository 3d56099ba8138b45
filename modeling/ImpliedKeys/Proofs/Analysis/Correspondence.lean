import ImpliedKeys.Proofs.Analysis.Proposal

/-!
# Columns that read alike in two schemas

A column of one schema corresponds to a column of another that has its name and its type, in a table
of the same name, with the same indexes and constraints. The namespaces, the other columns and the
other tables may differ. Two columns that correspond to those of a proposable pair are proposable,
unless a key declares them there that is not declared here.
-/
namespace ImpliedKeys

variable {config : Config} {s s' : Schema} {r r' parent parent' child child' : ColumnRef}

/-- What of a table is looked at to offer its columns as parents. -/
def Table.core (t : Table) : Table :=
  { name := t.name, indexes := t.indexes, constraints := t.constraints }

namespace Schema

theorem has_iff : s.Has r ↔ ∃ a, s.column? r = some a := by
  unfold Has column? Table.hasColumn
  simp only [Option.bind_eq_some_iff, Option.isSome_iff_exists]
  constructor
  · intro hcolumn
    obtain ⟨t, ht, a, ha⟩ := hcolumn
    exact ⟨a, t, ht, ha⟩
  · intro hcolumn
    obtain ⟨a, t, ht, ha⟩ := hcolumn
    exact ⟨t, ht, a, ha⟩

structure Corresponds (s s' : Schema) (r r' : ColumnRef) : Prop where
  name_eq : r.column = r'.column
  column?_eq : s.column? r = s'.column? r'
  core_eq : (s.table? r.table).map (·.core) = (s'.table? r'.table).map (·.core)

namespace Corresponds

theorem symm (h : s.Corresponds s' r r') : s'.Corresponds s r' r where
  name_eq := h.name_eq.symm
  column?_eq := h.column?_eq.symm
  core_eq := h.core_eq.symm

theorem table? (h : s.Corresponds s' r r') {t : Table} (ht : s.table? r.table = some t) :
    ∃ u, s'.table? r'.table = some u ∧ t.core = u.core := by
  have hcore := h.core_eq
  rw [ht, Option.map_some] at hcore
  obtain ⟨u, hu, hcore⟩ := Option.map_eq_some_iff.mp hcore.symm
  exact ⟨u, hu, hcore.symm⟩

theorem has (h : s.Corresponds s' r r') (hr : s.Has r) : s'.Has r' := by
  rw [has_iff] at hr ⊢
  rwa [← h.column?_eq]

theorem comparable (hparent : s.Corresponds s' parent parent')
    (hchild : s.Corresponds s' child child') (h : s.Comparable parent child) :
    s'.Comparable parent' child' := by
  unfold Comparable at h ⊢
  rwa [← hparent.column?_eq, ← hchild.column?_eq]

/-- A declared key is declared in the other schema too if the names written in it are resolved to
corresponding tables. -/
theorem declares (hparent : s.Corresponds s' parent parent')
    (hchild : s.Corresponds s' child child') (h : s.Declares parent child)
    (hresolve : ∀ t u columns written others, s.table? child.table = some t →
      s'.table? child'.table = some u → .foreignKey columns written others ∈ t.constraints →
      s.resolve? t written = some parent.table → s'.resolve? u written = some parent'.table) :
    s'.Declares parent' child' := by
  obtain ⟨t, columns, written, others, ht, hkey, hresolved, i, hi, hi'⟩ := h
  obtain ⟨u, hu, hcore⟩ := hchild.table? ht
  have hresolved := hresolve t u columns written others ht hu hkey hresolved
  have hkey : .foreignKey columns written others ∈ t.core.constraints := hkey
  rw [hcore] at hkey
  exact ⟨u, columns, written, others, hu, hkey, hresolved, i, hchild.name_eq ▸ hi,
    hparent.name_eq ▸ hi'⟩

end Corresponds

end Schema

/-- Corresponding columns are proposable as well, where they are not declared, at least the same
leading words may be dropped and columns of two tables do not come into one. -/
theorem Proposable.of_corresponds (h : Proposable config s parent child)
    (hparent : s.Corresponds s' parent parent') (hchild : s.Corresponds s' child child')
    (hdeclared : ¬ s'.Declares parent' child') (hreverse : ¬ s'.Declares child' parent')
    (htables : parent'.table = child'.table → parent.table = child.table)
    (hleads : ∀ lead ∈ sharedLeads s config.maxTablePrefixes,
      lead ∈ sharedLeads s' config.maxTablePrefixes) : Proposable config s' parent' child' where
  distinct he := by
    have htable : parent.table = child.table := htables (congrArg ColumnRef.table he)
    have hcolumn : parent.column = child.column := by
      rw [hparent.name_eq, hchild.name_eq, he]
    exact h.distinct (congr (congrArg ColumnRef.mk htable) hcolumn)
  undeclared := hdeclared
  unreversed := hreverse
  apart hrefused he := h.apart hrefused (htables he)
  comparable hchecked := hparent.comparable hchild (h.comparable hchecked)
  hasChild := hchild.has h.hasChild
  candidate := by
    obtain ⟨t, ht, hmay, k, hk, hmatch⟩ := h.candidate
    obtain ⟨u, hu, hcore⟩ := hparent.table? ht
    have hmay : t.core.MayBeParent config parent.column := hmay
    have hmatch : k ∈ Identifier.columnKeys parent.column ∨
        (∃ key, .primaryKey key ∈ t.core.constraints ∧ parent.column ∈ key) ∧
          k ∈ Identifier.tableKeys (sharedLeads s config.maxTablePrefixes) t.core.name := hmatch
    rw [hcore, hparent.name_eq] at hmay hmatch
    refine ⟨u, hu, hmay, k, hchild.name_eq ▸ hk, hmatch.imp_right fun htable => ?_⟩
    exact ⟨htable.1, Identifier.mem_tableKeys_of_subset hleads htable.2⟩

end ImpliedKeys
