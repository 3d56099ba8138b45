import ImpliedKeys.Proofs.Analysis.Candidate
import Mathlib.Data.List.Nodup

/-!
# The order of candidates

The candidates of a table are its first primary key, place by place, and then what is left of the
columns that are unique by themselves, in the order of declaration. Whether a column is in a primary
key is asked of all primary keys. The two agree on a table with one primary key. A column that only a
later primary key has is a candidate only if it is unique by itself, and then it comes among the
unique columns.
-/
namespace ImpliedKeys

/-- A list without repetitions begins with another exactly if taking that one's elements out of it
leaves the rest. -/
theorem isPrefix_iff_eq_append_filter {l m : List String} (hm : m.Nodup) :
    l <+: m ↔ m = l ++ m.filter (· ∉ l) := by
  constructor
  · intro hprefix
    obtain ⟨rest, rfl⟩ := hprefix
    have hl : l.filter (· ∉ l) = [] := by simp
    have hrest : rest.filter (· ∉ l) = rest := by
      refine List.filter_eq_self.mpr fun a ha => decide_eq_true fun hal => ?_
      exact (List.nodup_append.mp hm).2.2 a hal a ha rfl
    rw [List.filter_append, hl, hrest, List.nil_append]
  · intro hsplit
    exact ⟨_, hsplit.symm⟩

/-- It does not matter whether elements are dropped before or after the repetitions. -/
theorem filter_eraseDups (p : String → Bool) (l : List String) :
    l.eraseDups.filter p = (l.filter p).eraseDups := by
  match l with
  | [] => rfl
  | a :: l =>
    have hrest := filter_eraseDups p (l.filter fun b => !b == a)
    rw [List.filter_comm] at hrest
    rw [List.eraseDups_cons, List.filter_cons, hrest, List.filter_cons]
    split
    · rw [List.eraseDups_cons]
    · next ha =>
      have hdropped : ∀ b ∈ l.filter p, (!b == a) = true := by
        intro b hb
        have hpb := (List.mem_filter.mp hb).2
        simp only [Bool.not_eq_true', beq_eq_false_iff_ne]
        rintro rfl
        exact ha hpb
      rw [List.filter_eq_self.mpr hdropped]
termination_by l.length
decreasing_by exact Nat.lt_succ_of_le (List.length_filter_le _ _)

namespace Table

variable {t : Table} {column : String} {useUniqueKeys : Bool}

/-- The columns of the first primary key. -/
def firstKey (t : Table) : List String := t.primaryKey?.getD []

/-- The columns of all primary keys, key by key and place by place. -/
def primaryColumns (t : Table) : List String :=
  t.constraints.flatMap fun c => c.primaryKey?.getD []

/-- The columns that are unique by themselves, as far as the settings let them count. -/
def countedUnique (useUniqueKeys : Bool) (t : Table) : List String :=
  if useUniqueKeys then t.uniqueColumns else []

theorem mem_primaryColumns : column ∈ t.primaryColumns ↔ t.inPrimaryKey column = true := by
  simp [primaryColumns, inPrimaryKey, List.any_eq_true]

/-- The columns of the first primary key stand before those of the others. -/
theorem exists_primaryColumns_eq (t : Table) : ∃ later, t.primaryColumns = t.firstKey ++ later := by
  unfold primaryColumns firstKey primaryKey?
  induction t.constraints with
  | nil => exact ⟨[], rfl⟩
  | cons c constraints ih =>
    cases hc : c.primaryKey? with
    | some key => exact ⟨constraints.flatMap fun c => c.primaryKey?.getD [], by simp [hc]⟩
    | none => simpa [hc] using ih

theorem inPrimaryKey_of_mem_firstKey (h : column ∈ t.firstKey) : t.inPrimaryKey column = true := by
  obtain ⟨later, hlater⟩ := t.exists_primaryColumns_eq
  rw [← mem_primaryColumns, hlater]
  exact List.mem_append_left _ h

/-- The columns that only later primary keys have. -/
def laterColumns (t : Table) : List String :=
  (t.primaryColumns.removeAll t.firstKey).eraseDups

/-- The unique columns outside the first primary key. -/
def otherUnique (useUniqueKeys : Bool) (t : Table) : List String :=
  ((t.countedUnique useUniqueKeys).removeAll t.firstKey).eraseDups

theorem eraseDups_primaryColumns (t : Table) :
    t.primaryColumns.eraseDups = t.firstKey.eraseDups ++ t.laterColumns := by
  obtain ⟨later, hlater⟩ := t.exists_primaryColumns_eq
  have hrest : t.primaryColumns.removeAll t.firstKey = later.removeAll t.firstKey := by
    rw [hlater, List.removeAll, List.filter_append, List.filter_eq_nil_iff.mpr (by simp)]
    rfl
  rw [laterColumns, hrest, hlater, List.eraseDups_append]

theorem mem_laterColumns :
    column ∈ t.laterColumns ↔ t.inPrimaryKey column = true ∧ column ∉ t.firstKey := by
  simp [laterColumns, List.removeAll, mem_primaryColumns]

/-- A listing of the columns of a table that may be referred to: each once, those in a primary key in
the order of their keys, and then the unique ones that are in none, in the order of declaration. -/
structure ListsKeys (useUniqueKeys : Bool) (t : Table) (listed : List ColumnRef) : Prop where
  nodup : listed.Nodup
  mem_iff : ∀ r, r ∈ listed ↔ r.table = t.fullName ∧
    (t.inPrimaryKey r.column = true ∨ useUniqueKeys = true ∧ r.column ∈ t.uniqueColumns)
  ordered : listed = (t.primaryColumns.eraseDups ++
    ((t.countedUnique useUniqueKeys).filter (t.inPrimaryKey · = false)).eraseDups).map t.ref

theorem ref_injective (t : Table) : Function.Injective t.ref :=
  fun _ _ h => congrArg ColumnRef.column h

/-- The columns that may be referred to, in the order of a listing. -/
theorem eraseDups_keys (useUniqueKeys : Bool) (t : Table) :
    (t.primaryColumns ++ t.countedUnique useUniqueKeys).eraseDups =
      t.primaryColumns.eraseDups ++
        ((t.countedUnique useUniqueKeys).filter (t.inPrimaryKey · = false)).eraseDups := by
  have hother : (t.countedUnique useUniqueKeys).removeAll t.primaryColumns =
      (t.countedUnique useUniqueKeys).filter (t.inPrimaryKey · = false) :=
    List.filter_congr fun c _ => by simp [mem_primaryColumns]
  rw [List.eraseDups_append, hother]

theorem mem_countedUnique : column ∈ t.countedUnique useUniqueKeys ↔
    useUniqueKeys = true ∧ column ∈ t.uniqueColumns := by
  cases useUniqueKeys <;> simp [countedUnique]

/-- The order decides whether a list is such a listing. -/
theorem listsKeys_iff {listed : List ColumnRef} : t.ListsKeys useUniqueKeys listed ↔
    listed = (t.primaryColumns ++ t.countedUnique useUniqueKeys).eraseDups.map t.ref := by
  constructor
  · intro h
    rw [eraseDups_keys]
    exact h.ordered
  · intro hordered
    refine ⟨?_, fun r => ?_, ?_⟩
    · rw [hordered]
      exact List.Nodup.map t.ref_injective (nodup_eraseDups _)
    · rw [hordered, mem_map_ref, List.mem_eraseDups, List.mem_append, mem_primaryColumns,
        mem_countedUnique]
    · rw [hordered, eraseDups_keys]

/-- The columns that only later primary keys have are left out of the unique columns by a listing,
and by the candidates they are not. -/
theorem listsKeys_append_iff : t.ListsKeys useUniqueKeys
      ((t.firstKey.eraseDups ++ t.otherUnique useUniqueKeys).map t.ref) ↔
    t.laterColumns <+: t.otherUnique useUniqueKeys := by
  have hnodup : (t.otherUnique useUniqueKeys).Nodup := nodup_eraseDups _
  have hrest : ((t.countedUnique useUniqueKeys).filter (t.inPrimaryKey · = false)).eraseDups =
      (t.otherUnique useUniqueKeys).filter (· ∉ t.laterColumns) := by
    rw [otherUnique, filter_eraseDups, List.removeAll, List.filter_filter]
    refine congrArg _ (List.filter_congr fun c _ => ?_)
    simp only [List.elem_eq_mem, ← decide_not, ← Bool.decide_and, decide_eq_decide,
      mem_laterColumns, ← Bool.not_eq_true]
    constructor
    · intro hnone
      exact ⟨fun hlater => hnone hlater.1, fun hfirst => hnone (inPrimaryKey_of_mem_firstKey hfirst)⟩
    · intro hnone hkey
      exact hnone.1 ⟨hkey, hnone.2⟩
  rw [listsKeys_iff, eraseDups_keys, List.map_inj_right t.ref_injective,
    eraseDups_primaryColumns, hrest, List.append_assoc, List.append_cancel_left_eq,
    isPrefix_iff_eq_append_filter hnodup]

end Table

theorem candidates_eq (useUniqueKeys : Bool) (t : Table) : candidates useUniqueKeys t =
    (t.firstKey.eraseDups ++ t.otherUnique useUniqueKeys).map t.ref :=
  congrArg (List.map t.ref) List.eraseDups_append

theorem listsKeys_candidates_iff (useUniqueKeys : Bool) (t : Table) :
    t.ListsKeys useUniqueKeys (candidates useUniqueKeys t) ↔
      t.laterColumns <+: t.otherUnique useUniqueKeys := by
  rw [candidates_eq]
  exact Table.listsKeys_append_iff

/-- The candidates are the first primary key in its order and then the other unique columns, each
once. They list the columns that are in some primary key, and the unique ones, exactly if those that
only later primary keys have begin the other unique columns. With both settings they do so exactly if
the first primary key has the columns of all. -/
theorem candidates_list_keys_iff (t : Table) :
    (∀ useUniqueKeys, (candidates useUniqueKeys t).Nodup ∧ candidates useUniqueKeys t =
      (t.firstKey.eraseDups ++ t.otherUnique useUniqueKeys).map t.ref) ∧
    (∀ useUniqueKeys, t.ListsKeys useUniqueKeys (candidates useUniqueKeys t) ↔
      t.laterColumns <+: t.otherUnique useUniqueKeys) ∧
    ((∀ useUniqueKeys, t.ListsKeys useUniqueKeys (candidates useUniqueKeys t)) ↔
      ∀ column, t.inPrimaryKey column = true → column ∈ t.firstKey) := by
  have hnone : t.laterColumns = [] ↔
      ∀ column, t.inPrimaryKey column = true → column ∈ t.firstKey := by
    rw [List.eq_nil_iff_forall_not_mem]
    simp only [Table.mem_laterColumns, not_and, not_not]
  refine ⟨fun useUniqueKeys => ⟨nodup_candidates useUniqueKeys t, candidates_eq useUniqueKeys t⟩,
    fun useUniqueKeys => listsKeys_candidates_iff useUniqueKeys t, ?_⟩
  rw [← hnone]
  constructor
  · intro hlists
    -- without the unique columns nothing is left to begin with
    exact List.prefix_nil.mp ((listsKeys_candidates_iff false t).mp (hlists false))
  · intro hlater useUniqueKeys
    rw [listsKeys_candidates_iff, hlater]
    exact List.nil_prefix

/-- Products with two primary keys, which an analysis accepts. -/
def products : Table where
  name := "products"
  columns := [{ name := "id", type := .integer none }, { name := "code", type := .text }]
  constraints := [.primaryKey ["id"], .primaryKey ["code"]]

/-- The code of the products is in a primary key, and with neither setting it is a candidate. -/
theorem not_listsKeys_products :
    (Schema.addTable { version := "1.0" } products).defect? = none ∧
    products.inPrimaryKey "code" = true ∧
    ∀ useUniqueKeys, products.ref "code" ∉ candidates useUniqueKeys products ∧
      ¬ products.ListsKeys useUniqueKeys (candidates useUniqueKeys products) := by
  have hcode : products.inPrimaryKey "code" = true := by decide +kernel
  refine ⟨by decide +kernel, hcode, fun useUniqueKeys => ?_⟩
  have hmissing : products.ref "code" ∉ candidates useUniqueKeys products := by
    cases useUniqueKeys <;> decide +kernel
  exact ⟨hmissing, fun hlists => hmissing ((hlists.mem_iff _).mpr ⟨rfl, .inl hcode⟩)⟩

end ImpliedKeys
