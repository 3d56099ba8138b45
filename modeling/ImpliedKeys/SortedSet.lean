/-!
# Sorted lists and sets

A list is sorted by a comparison whose order is total. A sorted set lists its members in strictly
increasing order, so that a set has one listing and two sets with the same members are equal.
Insertion, union and membership are stated through that listing.
-/
namespace ImpliedKeys

universe u

section Sorting

variable {α : Type u} (cmp : α → α → Ordering) [Std.TransCmp cmp]

theorem isLE_or_isLE (a b : α) : (cmp a b).isLE ∨ (cmp b a).isLE := by
  have hswap : cmp b a = (cmp a b).swap := Std.OrientedCmp.eq_swap
  rw [hswap]
  cases cmp a b <;> decide

/-- Of any two elements of a sorted list the earlier one does not follow the later one. -/
theorem pairwise_isLE_mergeSort (l : List α) :
    (l.mergeSort fun a b => (cmp a b).isLE).Pairwise fun a b => (cmp a b).isLE :=
  List.pairwise_mergeSort (fun _ _ _ => Std.TransCmp.isLE_trans)
    (fun a b => by simpa using isLE_or_isLE cmp a b) l

end Sorting

/-- Each element comes strictly before every later one. -/
def Increasing {α : Type u} [Ord α] (l : List α) : Prop :=
  l.Pairwise fun a b => compare a b = .lt

namespace Increasing

variable {α : Type u} [Ord α]

theorem cons_iff {a : α} {l : List α} :
    Increasing (a :: l) ↔ (∀ b ∈ l, compare a b = .lt) ∧ Increasing l :=
  List.pairwise_cons

def insert (a : α) : List α → List α
  | [] => [a]
  | b :: l =>
    match compare a b with
    | .lt => a :: b :: l
    | .eq => b :: l
    | .gt => b :: insert a l

/-- The members of a list, each once and in order. -/
def ofList (l : List α) : List α :=
  l.foldr insert []

theorem mem_insert [Std.LawfulEqOrd α] {a b : α} {l : List α} :
    b ∈ insert a l ↔ b = a ∨ b ∈ l := by
  induction l with
  | nil => simp [insert]
  | cons c l ih =>
    unfold insert
    split
    · simp
    · next h =>
      have := Std.LawfulEqOrd.eq_of_compare h
      subst this
      simp
    · simp only [List.mem_cons, ih]
      constructor
      · rintro (h | h | h) <;> simp [h]
      · rintro (h | h | h) <;> simp [h]

theorem increasing_insert [Std.TransOrd α] [Std.LawfulEqOrd α] {a : α} {l : List α}
    (hl : Increasing l) : Increasing (insert a l) := by
  induction l with
  | nil => exact List.pairwise_singleton _ _
  | cons c l ih =>
    obtain ⟨hc, hr⟩ := cons_iff.mp hl
    unfold insert
    split
    · next h =>
      refine cons_iff.mpr ⟨fun b hb => ?_, hl⟩
      rcases List.mem_cons.mp hb with rfl | hb
      · exact h
      · exact Std.TransCmp.lt_trans h (hc b hb)
    · exact hl
    · next h =>
      refine cons_iff.mpr ⟨fun b hb => ?_, ih hr⟩
      rcases mem_insert.mp hb with rfl | hb
      · exact Std.OrientedCmp.lt_of_gt h
      · exact hc b hb

/-- An increasing list repeats nothing. -/
theorem nodup [Std.ReflCmp (α := α) compare] {l : List α} (hl : Increasing l) : l.Nodup :=
  hl.imp fun {a b} h he => by simp [he, Std.ReflCmp.compare_self] at h

theorem mem_ofList [Std.LawfulEqOrd α] {a : α} {l : List α} : a ∈ ofList l ↔ a ∈ l := by
  induction l with
  | nil => simp [ofList]
  | cons b l ih => simp only [ofList, List.foldr_cons, List.mem_cons, mem_insert] at ih ⊢; rw [ih]

theorem increasing_ofList [Std.TransOrd α] [Std.LawfulEqOrd α] (l : List α) :
    Increasing (ofList l) := by
  induction l with
  | nil => exact List.Pairwise.nil
  | cons b l ih => exact increasing_insert ih

/-- Two increasing lists with the same members are equal. -/
theorem ext [Std.TransOrd α] {l m : List α} (hl : Increasing l) (hm : Increasing m)
    (h : ∀ a, a ∈ l ↔ a ∈ m) : l = m := by
  induction l generalizing m with
  | nil =>
    cases m with
    | nil => rfl
    | cons b m => exact absurd ((h b).mpr (by simp)) (by simp)
  | cons a l ih =>
    cases m with
    | nil => exact absurd ((h a).mp (by simp)) (by simp)
    | cons b m =>
      obtain ⟨ha, hl⟩ := cons_iff.mp hl
      obtain ⟨hb, hmt⟩ := cons_iff.mp hm
      have irrefl (x : α) : compare x x ≠ .lt := by simp [Std.ReflCmp.compare_self]
      have hab : a = b := by
        rcases List.mem_cons.mp ((h a).mp (by simp)) with e | hm'
        · exact e
        · rcases List.mem_cons.mp ((h b).mpr (by simp)) with e | hl'
          · exact e.symm
          · exact absurd (Std.TransCmp.lt_trans (ha b hl') (hb a hm')) (irrefl a)
      subst hab
      congr 1
      refine ih hl hmt fun x => ⟨fun hx => ?_, fun hx => ?_⟩
      · rcases List.mem_cons.mp ((h x).mp (List.mem_cons_of_mem _ hx)) with rfl | hx'
        · exact absurd (ha x hx) (irrefl x)
        · exact hx'
      · rcases List.mem_cons.mp ((h x).mpr (List.mem_cons_of_mem _ hx)) with rfl | hx'
        · exact absurd (hb x hx) (irrefl x)
        · exact hx'

end Increasing

/-- A finite set, listed in increasing order. -/
structure SortedSet (α : Type u) [Ord α] where
  toList : List α
  increasing : Increasing toList

namespace SortedSet

variable {α : Type u} [Ord α]

instance [DecidableEq α] : DecidableEq (SortedSet α) := fun s t =>
  decidable_of_iff (s.toList = t.toList) ⟨fun h => by cases s; cases t; simp_all, fun h => h ▸ rfl⟩

def empty : SortedSet α := ⟨[], List.Pairwise.nil⟩

instance : Inhabited (SortedSet α) := ⟨empty⟩

instance : Membership α (SortedSet α) := ⟨fun s a => a ∈ s.toList⟩

instance [DecidableEq α] (a : α) (s : SortedSet α) : Decidable (a ∈ s) :=
  inferInstanceAs (Decidable (a ∈ s.toList))

theorem mem_def {a : α} {s : SortedSet α} : a ∈ s ↔ a ∈ s.toList := Iff.rfl

@[simp]
theorem not_mem_empty {a : α} : ¬ a ∈ (empty : SortedSet α) := by
  simp [mem_def, empty]

/-- A set is known by its members. -/
theorem ext [Std.TransOrd α] {s t : SortedSet α} (h : ∀ a, a ∈ s ↔ a ∈ t) : s = t := by
  cases s
  cases t
  congr 1
  exact Increasing.ext (by assumption) (by assumption) h

variable [Std.TransOrd α] [Std.LawfulEqOrd α]

def ofList (l : List α) : SortedSet α := ⟨Increasing.ofList l, Increasing.increasing_ofList l⟩

def insert (a : α) (s : SortedSet α) : SortedSet α :=
  ⟨Increasing.insert a s.toList, Increasing.increasing_insert s.increasing⟩

def union (s t : SortedSet α) : SortedSet α := ofList (s.toList ++ t.toList)

@[simp]
theorem mem_ofList {a : α} {l : List α} : a ∈ ofList l ↔ a ∈ l := Increasing.mem_ofList

@[simp]
theorem mem_insert {a b : α} {s : SortedSet α} : b ∈ s.insert a ↔ b = a ∨ b ∈ s :=
  Increasing.mem_insert

@[simp]
theorem mem_union {a : α} {s t : SortedSet α} : a ∈ s.union t ↔ a ∈ s ∨ a ∈ t := by
  simp [union, mem_ofList, mem_def (s := s), mem_def (s := t)]

end SortedSet

end ImpliedKeys
