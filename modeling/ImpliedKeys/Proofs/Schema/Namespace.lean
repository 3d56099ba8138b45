import ImpliedKeys.Proofs.Schema.Merging

/-!
# Schemas moved into a namespace

All tables of a schema without namespaces are given one, and are stored under their new qualified
names. Foreign keys are left as they are written. Looking a table up, resolving a written name and
listing the tables in order commute with the move, so a move makes no defect and mends none.
-/
namespace ImpliedKeys

theorem compare_append_left (front a b : String) :
    compare (front ++ a) (front ++ b) = compare a b := by
  have hlt {a b : String} (h : compare a b = .lt) : compare (front ++ a) (front ++ b) = .lt := by
    have h : a < b := compareOfLessAndEq_eq_lt.mp h
    have hfront : front ++ a < front ++ b := by
      rw [String.lt_iff] at h ⊢
      rw [String.toList_append, String.toList_append]
      exact List.append_left_lt h
    exact compareOfLessAndEq_eq_lt.mpr hfront
  cases h : compare a b with
  | lt => exact hlt h
  | eq =>
    have he : a = b := Std.LawfulEqOrd.eq_of_compare h
    rw [he]
    exact Std.ReflCmp.compare_self
  | gt => exact Std.OrientedCmp.gt_of_lt (hlt (Std.OrientedCmp.lt_of_gt h))

/-- The qualified name in a namespace. -/
def qualify (ns name : String) : String := ns ++ "." ++ name

variable {ns key written : String} {s : Schema} {t : Table}

theorem compare_qualify (a b : String) : compare (qualify ns a) (qualify ns b) = compare a b :=
  compare_append_left (ns ++ ".") a b

theorem qualify_inj {a b : String} (h : qualify ns a = qualify ns b) : a = b :=
  (String.append_right_inj (ns ++ ".")).mp h

theorem dot_mem_qualify : '.' ∈ (qualify ns key).toList := by
  simp [qualify, String.toList_append]

/-- The name that a foreign key writes for the table it refers to. -/
def Constraint.written? : Constraint → Option String
  | foreignKey _ written _ => some written
  | _ => none

def Table.inNamespace (ns : String) (t : Table) : Table := { t with schemaName := some ns }

namespace Schema

/-- The schema with all tables in a namespace, each stored under its qualified name. -/
def inNamespace (ns : String) (s : Schema) : Schema :=
  rekeyed { s with tables := s.tables.mapWithName fun _ t => t.inNamespace ns }

/-- A well-keyed schema without namespaces, in which no foreign key writes a qualified name. -/
structure Unqualified (s : Schema) : Prop where
  wellKeyed : s.WellKeyed
  schemaName_eq : ∀ {key t}, s.table? key = some t → t.schemaName = none
  dot_not_mem : ∀ {key t}, s.table? key = some t →
    ∀ c ∈ t.constraints, ∀ written ∈ c.written?, '.' ∉ written.toList

theorem unqualified_iff : s.Unqualified ↔ s.WellKeyed ∧ ∀ e ∈ s.tables.entries,
    e.2.schemaName = none ∧
      ∀ c ∈ e.2.constraints, ∀ written ∈ c.written?, '.' ∉ written.toList := by
  constructor
  · intro h
    refine ⟨h.wellKeyed, fun e he => ?_⟩
    have ht := table?_eq_some_iff.mpr he
    exact ⟨h.schemaName_eq ht, h.dot_not_mem ht⟩
  · intro h
    obtain ⟨hkeyed, htables⟩ := h
    exact ⟨hkeyed, fun ht => (htables _ (table?_eq_some_iff.mp ht)).1,
      fun ht => (htables _ (table?_eq_some_iff.mp ht)).2⟩

instance : Decidable s.Unqualified := decidable_of_iff _ unqualified_iff.symm

theorem Unqualified.name_eq (h : s.Unqualified) (ht : s.table? key = some t) : t.name = key := by
  have hname : key = t.fullName := h.wellKeyed _ (table?_eq_some_iff.mp ht)
  rw [hname, Table.fullName, h.schemaName_eq ht]

/-- Tables that are added in order are put at the end, one after the other. -/
theorem entries_addTables {ts : List Table}
    (h : Increasing (s.tables.keys ++ ts.map (·.fullName))) :
    (s.addTables ts).tables.entries = s.tables.entries ++ ts.map fun t => (t.fullName, t) := by
  induction ts generalizing s with
  | nil => simp [addTables]
  | cons t ts ih =>
    have hlast : (s.addTable t).tables.entries = s.tables.entries ++ [(t.fullName, t)] := by
      refine NameMap.insertEntry_of_forall_lt fun key hkey => ?_
      exact (List.pairwise_append.mp h).2.2 key hkey _ (by simp)
    have hkeys : (s.addTable t).tables.keys = s.tables.keys ++ [t.fullName] := by
      rw [NameMap.keys, hlast, List.map_append]
      rfl
    have hcons : s.addTables (t :: ts) = (s.addTable t).addTables ts := rfl
    rw [hcons, ih (by rw [hkeys]; simpa using h), hlast]
    simp

theorem entries_inNamespace (h : s.Unqualified) : (s.inNamespace ns).tables.entries =
    s.tables.entries.map fun e => (qualify ns e.1, e.2.inNamespace ns) := by
  have hname (e : String × Table) (he : e ∈ s.tables.entries) :
      (e.2.inNamespace ns).fullName = qualify ns e.1 := by
    rw [← h.name_eq (table?_eq_some_iff.mpr he)]
    rfl
  have hnames : (s.tables.mapWithName fun _ t => t.inNamespace ns).values.map (·.fullName) =
      s.tables.keys.map (qualify ns) := by
    simp only [NameMap.values, NameMap.mapWithName, NameMap.keys, List.map_map]
    exact List.map_congr_left hname
  unfold inNamespace rekeyed
  rw [entries_addTables]
  · simp only [NameMap.values, NameMap.mapWithName, NameMap.empty, List.map_map, List.nil_append]
    exact List.map_congr_left fun e he => by simp [hname e he]
  · rw [hnames]
    refine List.pairwise_map.mpr (s.tables.increasing.imp fun hlt => ?_)
    rwa [compare_qualify]

theorem table?_inNamespace (h : s.Unqualified) :
    (s.inNamespace ns).table? (qualify ns key) = (s.table? key).map (·.inNamespace ns) := by
  have hentries : (s.inNamespace ns).tables.entries =
      (s.tables.entries.map fun e => (e.1, e.2.inNamespace ns)).map fun e =>
        (qualify ns e.1, e.2) := by
    rw [entries_inNamespace h, List.map_map]
    rfl
  unfold table? NameMap.get?
  rw [hentries, lookup_map_key qualify_inj]
  exact lookup_map_value (fun _ (t : Table) => t.inNamespace ns) s.tables.entries key

/-- Every table of a moved schema is a moved table. -/
theorem of_table?_inNamespace (h : s.Unqualified) {u : Table}
    (hu : (s.inNamespace ns).table? key = some u) :
    ∃ name t, s.table? name = some t ∧ key = qualify ns name ∧ u = t.inNamespace ns := by
  rw [table?_eq_some_iff, entries_inNamespace h, List.mem_map] at hu
  obtain ⟨e, he, hmoved⟩ := hu
  cases hmoved
  exact ⟨e.1, e.2, table?_eq_some_iff.mpr he, rfl, rfl⟩

theorem wellKeyed_inNamespace : (s.inNamespace ns).WellKeyed := wellKeyed_rekeyed _

theorem tableCount_inNamespace (h : s.Unqualified) :
    (s.inNamespace ns).tableCount = s.tableCount := by
  rw [tableCount, NameMap.size, entries_inNamespace h, List.length_map]
  rfl

/-- Without namespaces a written name means the table of that name. -/
theorem Unqualified.resolve?_eq_some_iff (h : s.Unqualified) :
    s.resolve? t written = some key ↔ key = written ∧ ∃ u, s.table? key = some u := by
  rw [h.wellKeyed.resolve?_eq_some_iff]
  constructor
  · intro hresolved
    rcases hresolved with ⟨hstored, rfl⟩ | ⟨-, u, hu, -, hname⟩
    · exact ⟨rfl, hasTable_iff.mp hstored⟩
    · exact ⟨(h.name_eq hu).symm.trans hname, u, hu⟩
  · intro hstored
    obtain ⟨rfl, hu⟩ := hstored
    exact .inl ⟨hasTable_iff.mpr hu, rfl⟩

/-- In the moved schema a written name without a dot is found beside the referring table only. -/
theorem resolve?_inNamespace (h : s.Unqualified) (hwritten : '.' ∉ written.toList) :
    (s.inNamespace ns).resolve? (t.inNamespace ns) written =
      (s.resolve? t written).map (qualify ns) := by
  have hmissing : (s.inNamespace ns).hasTable written = false := by
    rw [← Bool.not_eq_true]
    intro hstored
    obtain ⟨u, hu⟩ := hasTable_iff.mp hstored
    obtain ⟨name, _, -, rfl, -⟩ := of_table?_inNamespace h hu
    exact hwritten dot_mem_qualify
  refine Option.ext fun found => ?_
  rw [wellKeyed_inNamespace.resolve?_eq_some_iff, Option.map_eq_some_iff]
  simp only [h.resolve?_eq_some_iff, hmissing, Bool.false_eq_true, false_and, false_or, true_and]
  constructor
  · intro hbeside
    obtain ⟨_, hu, -, hname⟩ := hbeside
    obtain ⟨name, v, hv, rfl, rfl⟩ := of_table?_inNamespace h hu
    exact ⟨name, ⟨(h.name_eq hv).symm.trans hname, v, hv⟩, rfl⟩
  · intro hstored
    obtain ⟨name, ⟨rfl, u, hu⟩, rfl⟩ := hstored
    have hname : u.name = name := h.name_eq hu
    exact ⟨u.inNamespace ns, by rw [table?_inNamespace h, hu, Option.map_some], rfl, hname⟩

theorem referenced?_inNamespace (h : s.Unqualified) (hwritten : '.' ∉ written.toList) :
    (s.inNamespace ns).referenced? (t.inNamespace ns) written =
      (s.referenced? t written).map (·.inNamespace ns) := by
  unfold referenced?
  rw [resolve?_inNamespace h hwritten, Option.bind_map, Option.map_bind]
  exact Option.bind_congr fun name _ => table?_inNamespace h

theorem supports_inNamespace_iff (h : s.Unqualified) (ht : s.table? key = some t)
    {constraint : Constraint} (hk : constraint ∈ t.constraints) :
    (s.inNamespace ns).Supports (t.inNamespace ns) constraint ↔ s.Supports t constraint := by
  have hreferenced {columns written others} (hc : constraint = .foreignKey columns written others) :
      (s.inNamespace ns).referenced? (t.inNamespace ns) written =
        (s.referenced? t written).map (·.inNamespace ns) :=
    referenced?_inNamespace h (h.dot_not_mem ht _ hk _ (hc ▸ rfl))
  constructor
  · intro hsupports
    refine hsupports.mono (fun _ hn => hn) fun columns written others hc parent hparent => ?_
    rw [hreferenced hc] at hparent
    obtain ⟨other, hother, rfl⟩ := Option.map_eq_some_iff.mp hparent
    exact ⟨other, hother, fun _ hn => hn⟩
  · intro hsupports
    refine hsupports.mono (fun _ hn => hn) fun columns written others hc parent hparent => ?_
    exact ⟨parent.inNamespace ns, by rw [hreferenced hc, hparent, Option.map_some], fun _ hn => hn⟩

theorem defect?_inNamespace_eq_none_iff (h : s.Unqualified) :
    (s.inNamespace ns).defect? = none ↔ s.defect? = none := by
  rw [defect?_eq_none_iff, defect?_eq_none_iff]
  constructor
  · intro hs key t ht
    have hmoved := hs (qualify ns key) (t.inNamespace ns)
      (by rw [table?_inNamespace h, ht, Option.map_some])
    exact ⟨hmoved.1, fun c hc => (supports_inNamespace_iff h ht hc).mp (hmoved.2 c hc)⟩
  · intro hs key u hu
    obtain ⟨name, t, ht, -, rfl⟩ := of_table?_inNamespace h hu
    obtain ⟨hindexes, hconstraints⟩ := hs name t ht
    exact ⟨hindexes, fun c hc => (supports_inNamespace_iff h ht hc).mpr (hconstraints c hc)⟩

end Schema

end ImpliedKeys
