import ImpliedKeys.Proofs.Analysis.Candidate
import ImpliedKeys.Proofs.Analysis.Index
import ImpliedKeys.Proofs.Schema.Resolution

/-!
# What is declared

The declared pairs of a well-keyed schema without a defect are the columns that stand at one place
of a foreign key, its own column and the one it refers to. The table referred to is the one stored
under the written name, or else the only table of that name in the namespace of the referring
table. Both columns exist, and each place of each foreign key gives a pair.
-/
namespace ImpliedKeys

namespace Schema

variable {s : Schema} {t : Table} {written key : String} {parent child : ColumnRef}

/-- A name written in a table refers to a key: the name itself if a table is stored under it, or else
the key of the only table that is called so in the same namespace. -/
def RefersTo (s : Schema) (t : Table) (written key : String) : Prop :=
  s.hasTable written = true ∧ key = written ∨
    s.hasTable written = false ∧
      (∃ p, s.table? key = some p ∧ p.schemaName = t.schemaName ∧ p.name = written) ∧
      ∀ other u, s.table? other = some u → u.schemaName = t.schemaName → u.name = written →
        other = key

/-- The child stands in a foreign key of its table, and at the same place the parent among the
columns that the key refers to. -/
def Links (s : Schema) (parent child : ColumnRef) : Prop :=
  ∃ t columns written others, s.table? child.table = some t ∧
    .foreignKey columns written others ∈ t.constraints ∧ s.RefersTo t written parent.table ∧
    ∃ i : Nat, columns[i]? = some child.column ∧ others[i]? = some parent.column

/-- In a well-keyed schema two tables of one name in one namespace are one. -/
theorem WellKeyed.key_eq {other : String} {u p : Table} (hkeyed : s.WellKeyed)
    (hu : s.table? other = some u) (hp : s.table? key = some p)
    (hschema : u.schemaName = p.schemaName) (hname : u.name = p.name) : other = key := by
  rw [← hkeyed.fullName_eq hu, ← hkeyed.fullName_eq hp]
  exact Table.fullName_congr hschema hname

theorem WellKeyed.resolve?_eq_some_iff_refersTo (hkeyed : s.WellKeyed) :
    s.resolve? t written = some key ↔ s.RefersTo t written key := by
  rw [hkeyed.resolve?_eq_some_iff, RefersTo]
  refine or_congr_right (and_congr_right fun _ => ?_)
  constructor
  · intro hbeside
    obtain ⟨p, hp, hschema, hname⟩ := hbeside
    refine ⟨⟨p, hp, hschema, hname⟩, fun other u hu huschema huname => ?_⟩
    exact hkeyed.key_eq hu hp (huschema.trans hschema.symm) (huname.trans hname.symm)
  · intro honly
    exact honly.1

theorem WellKeyed.declares_iff_links (hkeyed : s.WellKeyed) :
    s.Declares parent child ↔ s.Links parent child := by
  unfold Declares Links
  simp only [hkeyed.resolve?_eq_some_iff_refersTo]

/-- Without a defect the table that a foreign key refers to is found, with as many of its columns as
the key has of its own. -/
theorem exists_resolve?_of_sound (hs : s.defect? = none) (ht : s.table? key = some t)
    {columns others : List String} (hk : .foreignKey columns written others ∈ t.constraints) :
    columns.length = others.length ∧ ∃ target p, s.resolve? t written = some target ∧
      s.table? target = some p ∧ ∀ c ∈ others, p.hasColumn c = true := by
  obtain ⟨hlength, p, hp, hcolumns⟩ := (supports hs ht hk).referenced columns written others rfl
  obtain ⟨target, hresolved, htarget⟩ := Option.bind_eq_some_iff.mp hp
  exact ⟨hlength, target, p, hresolved, htarget, hcolumns⟩

theorem Declares.has (h : s.Declares parent child) (hs : s.defect? = none) :
    s.Has parent ∧ s.Has child := by
  obtain ⟨t, columns, written, others, ht, hk, hresolved, i, hchild, hparent⟩ := h
  obtain ⟨-, target, p, htarget, hp, hcolumns⟩ := exists_resolve?_of_sound hs ht hk
  rw [hresolved] at htarget
  cases htarget
  refine ⟨⟨p, hp, hcolumns _ (List.mem_of_getElem? hparent)⟩, t, ht, ?_⟩
  exact hasColumn_of_constraint hs ht hk (List.mem_of_getElem? hchild)

end Schema

namespace DeclaredKeys

theorem connects_comm (d : DeclaredKeys) (a b : ColumnRef) : d.connects a b = d.connects b a :=
  Bool.or_comm ..

theorem nodup_pairs (s : Schema) : (ofSchema s).pairs.Nodup := nodup_eraseDups _

end DeclaredKeys

variable {s : Schema}

/-- The pairs of columns that are declared in a well-keyed schema without a defect, in whichever
direction, are those that stand at one place of a foreign key. Each pair is kept once and names two
columns that exist, and each place of each foreign key has its pair. -/
theorem declared_exact (hkeyed : s.WellKeyed) (hs : s.defect? = none) :
    (∀ a b, (DeclaredKeys.ofSchema s).connects a b = true ↔ s.Links a b ∨ s.Links b a) ∧
    (∀ a b, (DeclaredKeys.ofSchema s).connects a b = (DeclaredKeys.ofSchema s).connects b a) ∧
    (DeclaredKeys.ofSchema s).pairs.Nodup ∧
    (∀ pair ∈ (DeclaredKeys.ofSchema s).pairs, s.Has pair.1 ∧ s.Has pair.2) ∧
    ∀ key t columns written others, s.table? key = some t →
      .foreignKey columns written others ∈ t.constraints →
      columns.length = others.length ∧ ∃ target, s.RefersTo t written target ∧
        ∀ (i : Nat) (c p : String), columns[i]? = some c → others[i]? = some p →
          (⟨target, p⟩, ⟨key, c⟩) ∈ (DeclaredKeys.ofSchema s).pairs := by
  refine ⟨fun a b => ?_, DeclaredKeys.connects_comm _, DeclaredKeys.nodup_pairs s, ?_, ?_⟩
  · rw [DeclaredKeys.connects_iff, hkeyed.declares_iff_links, hkeyed.declares_iff_links]
  · intro pair hpair
    exact (DeclaredKeys.mem_pairs.mp hpair).has hs
  · intro key t columns written others ht hk
    obtain ⟨hlength, target, -, hresolved, -⟩ := Schema.exists_resolve?_of_sound hs ht hk
    refine ⟨hlength, target, hkeyed.resolve?_eq_some_iff_refersTo.mp hresolved, ?_⟩
    intro i c p hc hp
    exact DeclaredKeys.mem_pairs.mpr ⟨t, columns, written, others, ht, hk, hresolved, i, hc, hp⟩

/-- Order lines that refer by two columns to the orders beside them. An archive holds orders, too. -/
def sales : Schema :=
  let orders (schemaName : String) : Table :=
    { schemaName := some schemaName, name := "orders",
      columns := [{ name := "region_id", type := .integer none },
        { name := "order_no", type := .integer none }] }
  Schema.addTable (Schema.addTable (Schema.addTable { version := "1.0" } (orders "archive"))
    (orders "sales"))
    { schemaName := some "sales", name := "order_lines",
      columns := [{ name := "order_region_id", type := .integer none },
        { name := "order_no", type := .integer none }],
      constraints := [.foreignKey ["order_region_id", "order_no"] "orders"
        ["region_id", "order_no"]] }

/-- Both places of the key are declared, in either direction. Columns at different places are not, and
neither are the orders of the archive. -/
theorem declared_exact_sales :
    sales.WellKeyed ∧ sales.defect? = none ∧
    sales.Links ⟨"sales.orders", "order_no"⟩ ⟨"sales.order_lines", "order_no"⟩ ∧
    (DeclaredKeys.ofSchema sales).connects ⟨"sales.order_lines", "order_no"⟩
      ⟨"sales.orders", "order_no"⟩ = true ∧
    ¬ sales.Links ⟨"sales.orders", "region_id"⟩ ⟨"sales.order_lines", "order_no"⟩ ∧
    ¬ sales.Links ⟨"archive.orders", "order_no"⟩ ⟨"sales.order_lines", "order_no"⟩ := by
  have hkeyed : sales.WellKeyed := by decide +kernel
  have hs : sales.defect? = none := by decide +kernel
  obtain ⟨hconnects, -⟩ := declared_exact hkeyed hs
  have hlinks : sales.Links ⟨"sales.orders", "order_no"⟩ ⟨"sales.order_lines", "order_no"⟩ :=
    hkeyed.declares_iff_links.mp (DeclaredKeys.mem_pairs.mp (by decide +kernel))
  have hunlinked {a b : ColumnRef} (h : (DeclaredKeys.ofSchema sales).connects a b = false) :
      ¬ sales.Links a b := by
    intro hab
    rw [(hconnects a b).mpr (.inl hab)] at h
    cases h
  refine ⟨hkeyed, hs, hlinks, (hconnects _ _).mpr (.inr hlinks), ?_, ?_⟩
  · exact hunlinked (by decide +kernel)
  · exact hunlinked (by decide +kernel)

end ImpliedKeys
