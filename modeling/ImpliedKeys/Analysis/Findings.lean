import ImpliedKeys.Schema.Basic

/-!
# Associations and implied keys

An association pairs a parent column with a child column that seems to refer to it. Associations
that are given one name form an implied key, and the findings of an analysis are its implied keys
in canonical order: by name, then by the pairs, with the pairs of each key strictly increasing.
-/
namespace ImpliedKeys

/-- A column that seems to refer to another, the child to the parent. -/
structure Association where
  parent : ColumnRef
  child : ColumnRef
  deriving DecidableEq, Inhabited

namespace Association

instance : Ord Association := ⟨compareLex (compareOn parent) (compareOn child)⟩

instance : Std.TransOrd Association :=
  inferInstanceAs (Std.TransCmp (compareLex (compareOn parent) (compareOn child)))

instance : Std.LawfulEqOrd Association where
  eq_of_compare {a b} h := by
    have h' : (compare a.parent b.parent).then (compare a.child b.child) = .eq := h
    obtain ⟨hp, hc⟩ := Ordering.then_eq_eq.mp h'
    have hp := Std.LawfulEqOrd.eq_of_compare hp
    have hc := Std.LawfulEqOrd.eq_of_compare hc
    cases a
    cases b
    simp_all

def flip (a : Association) : Association := ⟨a.child, a.parent⟩

def involves (a : Association) (table : String) : Bool :=
  a.parent.table = table || a.child.table = table

def text (a : Association) : String := a.parent.text ++ " <- " ++ a.child.text

theorem involves_iff {a : Association} {table : String} :
    a.involves table = true ↔ a.parent.table = table ∨ a.child.table = table := by
  simp [involves]

end Association

/-- A rule that names an association by its parent and its child. -/
abbrev Namer := ColumnRef → ColumnRef → String

namespace Namer

/-- The name that is customary for a declared key: `fk`, the child's table and column, and the
parent's table, joined by underscores. -/
def conventional : Namer := fun parent child =>
  "fk_" ++ child.table ++ "_" ++ child.column ++ "_" ++ parent.table

end Namer

structure ImpliedKey where
  name : String
  pairs : List Association := []
  deriving DecidableEq, Inhabited

namespace ImpliedKey

instance : Ord ImpliedKey := ⟨compareLex (compareOn name) (compareOn pairs)⟩

instance : Std.TransOrd ImpliedKey :=
  inferInstanceAs (Std.TransCmp (compareLex (compareOn name) (compareOn pairs)))

instance : Std.LawfulEqOrd ImpliedKey where
  eq_of_compare {a b} h := by
    have h' : (compare a.name b.name).then (compare a.pairs b.pairs) = .eq := h
    obtain ⟨hn, hp⟩ := Ordering.then_eq_eq.mp h'
    have hn := Std.LawfulEqOrd.eq_of_compare hn
    have hp := Std.LawfulEqOrd.eq_of_compare hp
    cases a
    cases b
    simp_all

/-- The key with one more pair at its end, unless it has that pair already. -/
def add (k : ImpliedKey) (a : Association) : ImpliedKey :=
  if a ∈ k.pairs then k else { k with pairs := k.pairs ++ [a] }

def involves (k : ImpliedKey) (table : String) : Bool := k.pairs.any (·.involves table)

/-- The key with its pairs in strictly increasing order. -/
def canonical (k : ImpliedKey) : ImpliedKey := { k with pairs := Increasing.ofList k.pairs }

def text (k : ImpliedKey) : String :=
  k.name ++ " [" ++ String.intercalate ", " (k.pairs.map (·.text)) ++ "]"

@[simp]
theorem name_add (k : ImpliedKey) (a : Association) : (k.add a).name = k.name := by
  unfold add
  split <;> rfl

@[simp]
theorem mem_pairs_add {k : ImpliedKey} {a b : Association} :
    b ∈ (k.add a).pairs ↔ b ∈ k.pairs ∨ b = a := by
  unfold add
  split
  · next h => exact ⟨.inl, fun hb => hb.elim id fun he => he ▸ h⟩
  · simp

@[simp]
theorem name_canonical (k : ImpliedKey) : k.canonical.name = k.name := rfl

@[simp]
theorem mem_pairs_canonical {k : ImpliedKey} {a : Association} :
    a ∈ k.canonical.pairs ↔ a ∈ k.pairs := Increasing.mem_ofList

theorem increasing_pairs_canonical (k : ImpliedKey) : Increasing k.canonical.pairs :=
  Increasing.increasing_ofList _

theorem involves_iff {k : ImpliedKey} {table : String} :
    k.involves table = true ↔
      ∃ a ∈ k.pairs, a.parent.table = table ∨ a.child.table = table := by
  simp [involves, Association.involves_iff]

/-- Of two keys in order that have different names, the first has the smaller name. -/
theorem name_lt_of_isLE {j k : ImpliedKey} (h : (compare j k).isLE) (hne : j.name ≠ k.name) :
    compare j.name k.name = .lt := by
  have hthen : compare j k = (compare j.name k.name).then (compare j.pairs k.pairs) := rfl
  rw [hthen] at h
  cases hc : compare j.name k.name with
  | lt => rfl
  | eq => exact absurd (Std.LawfulEqOrd.eq_of_compare hc) hne
  | gt => rw [hc] at h; cases h

theorem eq_of_isLE {j k : ImpliedKey} (hjk : (compare j k).isLE) (hkj : (compare k j).isLE) :
    j = k :=
  Std.LawfulEqOrd.eq_of_compare (Std.OrientedCmp.isLE_antisymm hjk hkj)

theorem lt_of_name_lt {j k : ImpliedKey} (h : compare j.name k.name = .lt) :
    compare j k = .lt := by
  have hthen : compare j k = (compare j.name k.name).then (compare j.pairs k.pairs) := rfl
  rw [hthen, h]
  rfl

end ImpliedKey

structure Findings where
  keys : List ImpliedKey := []
  deriving DecidableEq, Inhabited

namespace Findings

/-- The findings made of implied keys that come in any order. -/
def ofUnordered (ks : List ImpliedKey) : Findings :=
  ⟨(ks.map (·.canonical)).mergeSort fun j k => (compare j k).isLE⟩

def size (f : Findings) : Nat := f.keys.length

def get? (f : Findings) (name : String) : Option ImpliedKey := f.keys.find? (·.name = name)

def associations (f : Findings) : List Association := f.keys.flatMap (·.pairs)

/-- The implied keys that a table's attached names stand for. -/
def forTable (f : Findings) (t : Table) : List ImpliedKey := t.attached.toList.filterMap f.get?

/-- Where no two keys have one name, each key is found by its name. -/
theorem get?_of_mem {f : Findings} {k : ImpliedKey} (h : Increasing (f.keys.map (·.name)))
    (hk : k ∈ f.keys) : f.get? k.name = some k := by
  have hne : f.keys.Pairwise fun j k => j.name ≠ k.name := List.pairwise_map.mp h.nodup
  obtain ⟨before, after, hkeys⟩ := List.append_of_mem hk
  unfold get?
  rw [hkeys] at hne ⊢
  rw [List.find?_append, List.find?_cons_of_pos (by simp), Option.or_eq_right_of_none]
  rw [List.find?_eq_none]
  intro j hj hname
  exact (List.pairwise_append.mp hne).2.2 j hj k (by simp) (of_decide_eq_true hname)

theorem mem_associations {f : Findings} {a : Association} :
    a ∈ f.associations ↔ ∃ k ∈ f.keys, a ∈ k.pairs := List.mem_flatMap

theorem ofUnordered_nil : ofUnordered [] = {} := congrArg mk List.mergeSort_nil

theorem keys_ofUnordered_perm (ks : List ImpliedKey) :
    (ofUnordered ks).keys.Perm (ks.map (·.canonical)) := List.mergeSort_perm _ _

theorem pairwise_keys_ofUnordered (ks : List ImpliedKey) :
    (ofUnordered ks).keys.Pairwise fun j k => (compare j k).isLE :=
  pairwise_isLE_mergeSort compare _

/-- The canonical keys are put in order in one way only. -/
theorem ofUnordered_eq_of_perm {ks keys : List ImpliedKey}
    (hperm : keys.Perm (ks.map (·.canonical)))
    (hordered : keys.Pairwise fun j k => (compare j k).isLE) : ofUnordered ks = ⟨keys⟩ := by
  have hkeys : (ofUnordered ks).keys = keys :=
    ((keys_ofUnordered_perm ks).trans hperm.symm).eq_of_pairwise
      (fun _ _ _ _ => ImpliedKey.eq_of_isLE) (pairwise_keys_ofUnordered ks) hordered
  exact congrArg Findings.mk hkeys

theorem mem_keys_ofUnordered {ks : List ImpliedKey} {k : ImpliedKey} :
    k ∈ (ofUnordered ks).keys ↔ ∃ j ∈ ks, j.canonical = k := by
  rw [(keys_ofUnordered_perm ks).mem_iff, List.mem_map]

/-- Keys of different names are put in strictly increasing order of their names. -/
theorem increasing_names_ofUnordered {ks : List ImpliedKey} (h : (ks.map (·.name)).Nodup) :
    Increasing ((ofUnordered ks).keys.map (·.name)) := by
  have hperm : ((ofUnordered ks).keys.map (·.name)).Perm (ks.map (·.name)) := by
    have hnames := (keys_ofUnordered_perm ks).map (·.name)
    rwa [List.map_map] at hnames
  have hne : (ofUnordered ks).keys.Pairwise fun j k => j.name ≠ k.name :=
    List.pairwise_map.mp (hperm.nodup_iff.mpr h)
  exact List.pairwise_map.mpr
    ((pairwise_keys_ofUnordered ks).imp₂ (fun _ _ => ImpliedKey.name_lt_of_isLE) hne)

end Findings

namespace ColumnRef

def toJson (r : ColumnRef) : Json := .obj [("table", .str r.table), ("column", .str r.column)]

end ColumnRef

namespace Findings

/-- The findings as JSON, each key with its name first and its pairs after it. -/
def toJson (f : Findings) : Json :=
  .arr <| f.keys.map fun k => .obj [
    ("name", .str k.name),
    ("associations", .arr <| k.pairs.map fun a => .obj [
      ("primary_key_column", a.parent.toJson), ("foreign_key_column", a.child.toJson)])]

end Findings

end ImpliedKeys
