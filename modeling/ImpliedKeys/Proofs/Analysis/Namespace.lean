import ImpliedKeys.Proofs.Analysis.Correspondence
import ImpliedKeys.Proofs.Analysis.Findings
import ImpliedKeys.Proofs.Schema.Namespace

/-!
# The findings of a schema moved into a namespace

A column of a schema without namespaces and the same column of the moved schema correspond, and no
columns change places in the order, since all qualified names begin alike. So the pairs that are
found in the moved schema are those that are found in the schema, under the new names of their
tables.
-/
namespace ImpliedKeys

variable {config : Config} {namer : Namer} {ns : String} {s : Schema} {r parent child : ColumnRef}
variable {a : Association}

def ColumnRef.inNamespace (ns : String) (r : ColumnRef) : ColumnRef :=
  { r with table := qualify ns r.table }

def Association.inNamespace (ns : String) (a : Association) : Association :=
  ⟨a.parent.inNamespace ns, a.child.inNamespace ns⟩

theorem ColumnRef.compare_inNamespace (a b : ColumnRef) :
    compare (a.inNamespace ns) (b.inNamespace ns) = compare a b := by
  have hthen : compare (a.inNamespace ns) (b.inNamespace ns) =
      (compare (qualify ns a.table) (qualify ns b.table)).then (compare a.column b.column) := rfl
  rw [hthen, compare_qualify]
  rfl

namespace Schema

theorem corresponds_inNamespace (h : s.Unqualified) :
    s.Corresponds (s.inNamespace ns) r (r.inNamespace ns) where
  name_eq := rfl
  column?_eq := by
    unfold column? ColumnRef.inNamespace
    rw [table?_inNamespace h, Option.bind_map]
    rfl
  core_eq := by
    unfold ColumnRef.inNamespace
    rw [table?_inNamespace h, Option.map_map]
    rfl

theorem sharedLeads_inNamespace (ns : String) (h : s.Unqualified) (limit : Nat) :
    sharedLeads (s.inNamespace ns) limit = sharedLeads s limit := by
  have hoccurrences : leadOccurrences (s.inNamespace ns) = leadOccurrences s := by
    unfold leadOccurrences NameMap.values
    rw [entries_inNamespace h, List.map_map, List.flatMap_map, List.flatMap_map]
    rfl
  unfold sharedLeads
  rw [hoccurrences]

theorem declares_inNamespace_iff (h : s.Unqualified) :
    (s.inNamespace ns).Declares (parent.inNamespace ns) (child.inNamespace ns) ↔
      s.Declares parent child := by
  have hparent : s.Corresponds (s.inNamespace ns) parent (parent.inNamespace ns) :=
    corresponds_inNamespace h
  have hchild : s.Corresponds (s.inNamespace ns) child (child.inNamespace ns) :=
    corresponds_inNamespace h
  have hmoved {t : Table} (ht : s.table? child.table = some t) :
      (s.inNamespace ns).table? (child.inNamespace ns).table = some (t.inNamespace ns) := by
    exact (table?_inNamespace h).trans (by rw [ht, Option.map_some])
  constructor
  · intro hdeclared
    refine hparent.symm.declares hchild.symm hdeclared ?_
    intro u t _ written _ hu ht hkey hresolved
    rw [hmoved ht] at hu
    cases hu
    rw [resolve?_inNamespace h (h.dot_not_mem ht _ hkey _ rfl)] at hresolved
    obtain ⟨name, hname, hqualified⟩ := Option.map_eq_some_iff.mp hresolved
    rwa [qualify_inj hqualified] at hname
  · intro hdeclared
    refine hparent.declares hchild hdeclared ?_
    intro t u _ written _ ht hu hkey hresolved
    rw [hmoved ht] at hu
    cases hu
    rw [resolve?_inNamespace h (h.dot_not_mem ht _ hkey _ rfl), hresolved]
    rfl

end Schema

theorem proposable_inNamespace_iff (h : s.Unqualified) :
    Proposable config (s.inNamespace ns) (parent.inNamespace ns) (child.inNamespace ns) ↔
      Proposable config s parent child := by
  have hleads := Schema.sharedLeads_inNamespace ns h config.maxTablePrefixes
  have hparent : s.Corresponds (s.inNamespace ns) parent (parent.inNamespace ns) :=
    Schema.corresponds_inNamespace h
  have hchild : s.Corresponds (s.inNamespace ns) child (child.inNamespace ns) :=
    Schema.corresponds_inNamespace h
  constructor
  · intro hp
    refine hp.of_corresponds hparent.symm hchild.symm
      (mt (Schema.declares_inNamespace_iff h).mpr hp.undeclared)
      (mt (Schema.declares_inNamespace_iff h).mpr hp.unreversed) (congrArg (qualify ns)) ?_
    exact fun lead hlead => hleads ▸ hlead
  · intro hp
    refine hp.of_corresponds hparent hchild
      (mt (Schema.declares_inNamespace_iff h).mp hp.undeclared)
      (mt (Schema.declares_inNamespace_iff h).mp hp.unreversed) qualify_inj ?_
    exact fun lead hlead => hleads ▸ hlead

/-- The columns of a proposable pair of the moved schema come from the schema. -/
theorem Proposable.of_inNamespace (h : s.Unqualified)
    (hp : Proposable config (s.inNamespace ns) a.parent a.child) :
    ∃ b : Association, b.inNamespace ns = a := by
  obtain ⟨u, hu, -⟩ := hp.candidate
  obtain ⟨v, hv, -⟩ := hp.hasChild
  obtain ⟨parent, -, -, hparent, -⟩ := Schema.of_table?_inNamespace h hu
  obtain ⟨child, -, -, hchild, -⟩ := Schema.of_table?_inNamespace h hv
  refine ⟨⟨⟨parent, a.parent.column⟩, ⟨child, a.child.column⟩⟩, ?_⟩
  unfold Association.inNamespace ColumnRef.inNamespace
  rw [← hparent, ← hchild]

theorem inNamespace_mem_keptPairs_iff (h : s.Unqualified) (hs : s.defect? = none) :
    a.inNamespace ns ∈ keptPairs config (s.inNamespace ns) ↔ a ∈ keptPairs config s := by
  have hs' : (s.inNamespace ns).defect? = none := (Schema.defect?_inNamespace_eq_none_iff h).mpr hs
  rw [mem_keptPairs_iff Schema.wellKeyed_inNamespace hs', mem_keptPairs_iff h.wellKeyed hs]
  unfold Association.inNamespace
  rw [proposable_inNamespace_iff h, proposable_inNamespace_iff h, ColumnRef.compare_inNamespace]

theorem mem_keptPairs_inNamespace (h : s.Unqualified) (hs : s.defect? = none) :
    a ∈ keptPairs config (s.inNamespace ns) ↔
      ∃ b ∈ keptPairs config s, b.inNamespace ns = a := by
  constructor
  · intro ha
    have hs' : (s.inNamespace ns).defect? = none :=
      (Schema.defect?_inNamespace_eq_none_iff h).mpr hs
    obtain ⟨b, rfl⟩ := Proposable.of_inNamespace h
      ((mem_keptPairs_iff Schema.wellKeyed_inNamespace hs').mp ha).1
    exact ⟨b, (inNamespace_mem_keptPairs_iff h hs).mp ha, rfl⟩
  · intro hb
    obtain ⟨b, hb, rfl⟩ := hb
    exact (inNamespace_mem_keptPairs_iff h hs).mpr hb

/-- A schema without namespaces has a defect exactly if it has one when it is moved into a
namespace, whatever that is called. The pairs that are found then are those that are found in the
schema, in the same direction, with each table under its qualified name. -/
theorem findings_inNamespace (config : Config) (namer : Namer) (ns : String) (h : s.Unqualified) :
    ((s.inNamespace ns).defect? = none ↔ s.defect? = none) ∧
    (s.defect? = none → ∃ found moved, (analyze config namer s).outcome = .ok found ∧
      (analyze config namer (s.inNamespace ns)).outcome = .ok moved ∧
      ∀ a, a ∈ moved.associations ↔ ∃ b ∈ found.associations, b.inNamespace ns = a) := by
  have hdefect : (s.inNamespace ns).defect? = none ↔ s.defect? = none :=
    Schema.defect?_inNamespace_eq_none_iff h
  refine ⟨hdefect, fun hs => ?_⟩
  obtain ⟨found, hfound⟩ := exists_ok_of_sound config namer hs
  obtain ⟨moved, hmoved⟩ := exists_ok_of_sound config namer (hdefect.mpr hs)
  refine ⟨found, moved, hfound, hmoved, fun a => ?_⟩
  simp only [mem_associations_of_ok hfound, mem_associations_of_ok hmoved,
    Schema.tableCount_inNamespace h, mem_keptPairs_inNamespace h hs, and_assoc, exists_and_left]

/-- In a namespace with a dot in its name the shop's declared key still means the accounts. -/
theorem findings_inNamespace_shop :
    shop.Unqualified ∧ shop.defect? = none ∧ (shop.inNamespace "shops.north").defect? = none ∧
    ∃ found moved, (analyze {} .conventional shop).outcome = .ok found ∧
      (analyze {} .conventional (shop.inNamespace "shops.north")).outcome = .ok moved ∧
      ∀ a, a ∈ moved.associations ↔
        ∃ b ∈ found.associations, b.inNamespace "shops.north" = a := by
  have hunqualified : shop.Unqualified := by decide +kernel
  obtain ⟨hdefect, hmoved⟩ := findings_inNamespace {} .conventional "shops.north" hunqualified
  exact ⟨hunqualified, shop_sound, hdefect.mpr shop_sound, hmoved shop_sound⟩

example : keptPairs {} (shop.inNamespace "shops.north") =
    (keptPairs {} shop).map (·.inNamespace "shops.north") := by decide +kernel

end ImpliedKeys
