import ImpliedKeys.Entries
import ImpliedKeys.SortedSet

/-!
# Name maps

A name map holds one value per name and lists its entries in increasing order of the names. Every
visit of a schema's tables goes in that order, so the listing is part of the type.
-/
namespace ImpliedKeys

universe u v

/-- A finite map from names, listed in increasing order of the names. -/
structure NameMap (α : Type u) where
  entries : List (String × α)
  increasing : Increasing (entries.map (·.1))

namespace NameMap

variable {α : Type u} {β : Type v}

instance [DecidableEq α] : DecidableEq (NameMap α) := fun m n =>
  decidable_of_iff (m.entries = n.entries)
    ⟨fun h => by cases m; cases n; simp_all, fun h => h ▸ rfl⟩

def empty : NameMap α := ⟨[], List.Pairwise.nil⟩

instance : Inhabited (NameMap α) := ⟨empty⟩

def keys (m : NameMap α) : List String := m.entries.map (·.1)

def values (m : NameMap α) : List α := m.entries.map (·.2)

def size (m : NameMap α) : Nat := m.entries.length

def get? (m : NameMap α) (name : String) : Option α := m.entries.lookup name

def contains (m : NameMap α) (name : String) : Bool := (m.get? name).isSome

/-- Puts an entry at its place, over an entry of the same name. -/
def insertEntry (name : String) (value : α) : List (String × α) → List (String × α)
  | [] => [(name, value)]
  | (other, held) :: rest =>
    match compare name other with
    | .lt => (name, value) :: (other, held) :: rest
    | .eq => (other, value) :: rest
    | .gt => (other, held) :: insertEntry name value rest

theorem map_fst_insertEntry (name : String) (value : α) (l : List (String × α)) :
    (insertEntry name value l).map (·.1) = Increasing.insert name (l.map (·.1)) := by
  induction l with
  | nil => rfl
  | cons e l ih =>
    obtain ⟨other, held⟩ := e
    simp only [insertEntry, List.map_cons, Increasing.insert]
    split <;> simp_all

theorem map_insertEntry (f : α → β) (name : String) (value : α) (l : List (String × α)) :
    (insertEntry name value l).map (fun e => (e.1, f e.2)) =
      insertEntry name (f value) (l.map fun e => (e.1, f e.2)) := by
  induction l with
  | nil => rfl
  | cons e l ih =>
    obtain ⟨other, held⟩ := e
    simp only [insertEntry, List.map_cons]
    split <;> simp_all

/-- The map in which a name has the given value and every other name the value it had. -/
def insert (m : NameMap α) (name : String) (value : α) : NameMap α where
  entries := insertEntry name value m.entries
  increasing := map_fst_insertEntry name value m.entries ▸ Increasing.increasing_insert m.increasing

def erase (m : NameMap α) (name : String) : NameMap α where
  entries := m.entries.filter fun e => e.1 ≠ name
  increasing := m.increasing.sublist (List.filter_sublist.map _)

/-- The map in which every value is replaced by what `f` makes of its name and of it. -/
def mapWithName (f : String → α → β) (m : NameMap α) : NameMap β where
  entries := m.entries.map fun e => (e.1, f e.1 e.2)
  increasing := by
    rw [List.map_map]
    exact m.increasing

/-- The map in which `f` is applied to the value of one name, if it has one. -/
def modify (m : NameMap α) (name : String) (f : α → α) : NameMap α :=
  m.mapWithName fun other value => if other = name then f value else value

/-- The map of a list of entries; of two entries for one name the later one counts. -/
def ofList (l : List (String × α)) : NameMap α :=
  l.foldl (fun m e => m.insert e.1 e.2) empty

@[simp]
theorem keys_mapWithName (f : String → α → β) (m : NameMap α) :
    (m.mapWithName f).keys = m.keys := by
  simp [keys, mapWithName]

@[simp]
theorem keys_modify (m : NameMap α) (name : String) (f : α → α) :
    (m.modify name f).keys = m.keys :=
  keys_mapWithName _ m

/-- What a name stands for is what is listed under it. -/
theorem get?_eq_some_iff {m : NameMap α} {name : String} {a : α} :
    m.get? name = some a ↔ (name, a) ∈ m.entries :=
  lookup_eq_some_iff_mem m.increasing.nodup

theorem nodup_entries (m : NameMap α) : m.entries.Nodup :=
  (List.pairwise_map.mp m.increasing).imp fun {a b} hlt he => by
    simp [he, Std.ReflCmp.compare_self] at hlt

/-- A map is known by what its names stand for. -/
theorem ext {m n : NameMap α} (h : ∀ name, m.get? name = n.get? name) : m = n := by
  have hmem (e : String × α) : e ∈ m.entries ↔ e ∈ n.entries := by
    rw [← get?_eq_some_iff, ← get?_eq_some_iff, h]
  have hperm : m.entries.Perm n.entries :=
    (List.perm_ext_iff_of_nodup m.nodup_entries n.nodup_entries).mpr hmem
  have hentries : m.entries = n.entries := by
    refine hperm.eq_of_pairwise ?_ (List.pairwise_map.mp m.increasing)
      (List.pairwise_map.mp n.increasing)
    intro a b _ _ hab hba
    rw [Std.OrientedCmp.gt_of_lt hab] at hba
    cases hba
  cases m
  cases n
  simp_all

theorem mem_values_iff {m : NameMap α} {a : α} : a ∈ m.values ↔ ∃ name, m.get? name = some a := by
  simp only [values, List.mem_map, get?_eq_some_iff]
  constructor
  · intro hlisted
    obtain ⟨⟨name, b⟩, h, rfl⟩ := hlisted
    exact ⟨name, h⟩
  · intro hstored
    obtain ⟨name, h⟩ := hstored
    exact ⟨(name, a), h, rfl⟩

theorem mem_keys_iff {m : NameMap α} {name : String} :
    name ∈ m.keys ↔ ∃ a, m.get? name = some a := by
  simp only [keys, List.mem_map, get?_eq_some_iff]
  constructor
  · intro hlisted
    obtain ⟨⟨other, a⟩, h, rfl⟩ := hlisted
    exact ⟨a, h⟩
  · intro hstored
    obtain ⟨a, h⟩ := hstored
    exact ⟨(name, a), h, rfl⟩

theorem contains_iff {m : NameMap α} {name : String} :
    m.contains name = true ↔ ∃ a, m.get? name = some a := Option.isSome_iff_exists

@[simp]
theorem get?_empty (name : String) : (empty : NameMap α).get? name = none := rfl

theorem lookup_insertEntry (name : String) (a : α) (l : List (String × α)) (other : String) :
    (insertEntry name a l).lookup other = if other = name then some a else l.lookup other := by
  induction l with
  | nil => exact lookup_cons_ite ..
  | cons e l ih =>
    obtain ⟨key, held⟩ := e
    unfold insertEntry
    split
    · rw [lookup_cons_ite]
    · next h =>
      have he : name = key := Std.LawfulEqOrd.eq_of_compare h
      subst he
      rw [lookup_cons_ite, lookup_cons_ite]
      by_cases ho : other = name <;> simp [ho]
    · next h =>
      have hne : name ≠ key := by
        rintro rfl
        simp [Std.ReflCmp.compare_self] at h
      rw [lookup_cons_ite, lookup_cons_ite, ih]
      by_cases ho : other = key
      · simp [ho, Ne.symm hne]
      · simp [ho]

theorem get?_insert (m : NameMap α) (name : String) (a : α) (other : String) :
    (m.insert name a).get? other = if other = name then some a else m.get? other :=
  lookup_insertEntry name a m.entries other

/-- An entry of a new name is put somewhere among the others. -/
theorem insertEntry_perm {name : String} {a : α} {l : List (String × α)}
    (hnew : name ∉ l.map (·.1)) : (insertEntry name a l).Perm ((name, a) :: l) := by
  induction l with
  | nil => exact .refl _
  | cons e l ih =>
    obtain ⟨key, held⟩ := e
    rw [List.map_cons, List.mem_cons, not_or] at hnew
    unfold insertEntry
    split
    · exact .refl _
    · next h => exact absurd (Std.LawfulEqOrd.eq_of_compare h) hnew.1
    · exact ((ih hnew.2).cons _).trans (.swap ..)

/-- An entry whose name follows all others is put at the end. -/
theorem insertEntry_of_forall_lt {name : String} {a : α} {l : List (String × α)}
    (h : ∀ key ∈ l.map (·.1), compare key name = .lt) : insertEntry name a l = l ++ [(name, a)] := by
  induction l with
  | nil => rfl
  | cons e l ih =>
    obtain ⟨key, held⟩ := e
    rw [List.map_cons, List.forall_mem_cons] at h
    have hgt : compare name key = .gt := Std.OrientedCmp.gt_of_lt h.1
    rw [insertEntry, hgt, List.cons_append, ih h.2]

theorem filter_insertEntry (name : String) (a : α) (l : List (String × α)) :
    (insertEntry name a l).filter (fun e => e.1 ≠ name) = l.filter fun e => e.1 ≠ name := by
  induction l with
  | nil => simp [insertEntry]
  | cons e l ih =>
    obtain ⟨key, held⟩ := e
    unfold insertEntry
    split
    · simp
    · next h =>
      have he : name = key := Std.LawfulEqOrd.eq_of_compare h
      simp [he]
    · rw [List.filter_cons, List.filter_cons, ih]

theorem get?_erase (m : NameMap α) (name other : String) :
    (m.erase name).get? other = if other = name then none else m.get? other := by
  have h := lookup_filter_key (fun key => key ≠ name) m.entries other
  unfold get? erase
  rw [h]
  by_cases ho : other = name <;> simp [ho]

/-- A value that is taken out can be put back. -/
theorem insert_erase {m : NameMap α} {name : String} {a : α} (h : m.get? name = some a) :
    (m.erase name).insert name a = m := by
  refine ext fun other => ?_
  rw [get?_insert, get?_erase]
  by_cases ho : other = name
  · rw [if_pos ho, ho, h]
  · rw [if_neg ho, if_neg ho]

/-- Of the entries that are put in for one name the last one counts. -/
theorem get?_foldl_insert (l : List (String × α)) (m : NameMap α) (name : String) :
    (l.foldl (fun m e => m.insert e.1 e.2) m).get? name =
      (l.reverse.lookup name).or (m.get? name) := by
  induction l generalizing m with
  | nil => rfl
  | cons e l ih =>
    obtain ⟨key, a⟩ := e
    rw [List.foldl_cons, ih, get?_insert, List.reverse_cons, List.lookup_append, lookup_cons_ite,
      Option.or_assoc]
    by_cases hkey : name = key <;> simp [hkey]

theorem get?_ofList (l : List (String × α)) (name : String) :
    (ofList l).get? name = l.reverse.lookup name := by
  unfold ofList
  rw [get?_foldl_insert, get?_empty, Option.or_none]

theorem ofList_entries (m : NameMap α) : ofList m.entries = m := by
  have hnodup : (m.entries.reverse.map (·.1)).Nodup := by
    rw [List.map_reverse]
    exact List.pairwise_reverse.mpr (m.increasing.nodup.imp Ne.symm)
  refine ext fun name => Option.ext fun a => ?_
  rw [get?_ofList, lookup_eq_some_iff_mem hnodup, List.mem_reverse, get?_eq_some_iff]

@[simp]
theorem get?_mapWithName (f : String → α → β) (m : NameMap α) (name : String) :
    (m.mapWithName f).get? name = (m.get? name).map (f name) :=
  lookup_map_value f m.entries name

theorem get?_modify (m : NameMap α) (name : String) (f : α → α) (other : String) :
    (m.modify name f).get? other = (m.get? other).map fun a => if other = name then f a else a :=
  get?_mapWithName ..

end NameMap

end ImpliedKeys
