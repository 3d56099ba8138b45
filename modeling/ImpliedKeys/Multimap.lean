import ImpliedKeys.Entries
import ImpliedKeys.SortedSet

/-!
# Multimaps

A multimap holds a set of values per key and is filled one value at a time. It is read through the
set of a key, which is empty for a key that was never filled.
-/
namespace ImpliedKeys

universe u v

/-- A finite relation, kept as the set of values of each key. -/
structure Multimap (κ : Type u) (α : Type v) [Ord α] where
  entries : List (κ × SortedSet α) := []

namespace Multimap

variable {κ : Type u} {α : Type v} [DecidableEq κ] [Ord α]

def keys (m : Multimap κ α) : List κ := m.entries.map (·.1)

def get (m : Multimap κ α) (key : κ) : SortedSet α := (m.entries.lookup key).getD .empty

variable [Std.TransOrd α] [Std.LawfulEqOrd α]

/-- Adds a value to the set of a key, at the end if the key is new. -/
def addEntry (key : κ) (a : α) : List (κ × SortedSet α) → List (κ × SortedSet α)
  | [] => [(key, SortedSet.empty.insert a)]
  | (other, held) :: rest =>
    if other = key then (other, held.insert a) :: rest else (other, held) :: addEntry key a rest

def add (m : Multimap κ α) (key : κ) (a : α) : Multimap κ α := ⟨addEntry key a m.entries⟩

theorem lookup_addEntry (key : κ) (a : α) (l : List (κ × SortedSet α)) (other : κ) :
    (addEntry key a l).lookup other =
      if other = key then some (((l.lookup key).getD .empty).insert a) else l.lookup other := by
  induction l with
  | nil => rw [addEntry, lookup_cons_ite]; rfl
  | cons e l ih =>
    obtain ⟨k, held⟩ := e
    by_cases hk : k = key
    · subst hk
      by_cases ho : other = k <;> simp [addEntry, lookup_cons_ite, ho]
    · simp only [addEntry, hk, if_false, lookup_cons_ite, ih]
      by_cases ho : other = k
      · simp [ho, hk]
      · simp [ho, Ne.symm hk]

/-- A new value is a value of its key only. -/
theorem mem_get_add {m : Multimap κ α} {key other : κ} {a b : α} :
    b ∈ (m.add key a).get other ↔ (other = key ∧ b = a) ∨ b ∈ m.get other := by
  unfold add get
  rw [lookup_addEntry]
  by_cases h : other = key
  · subst h
    simp
  · simp [h]

theorem mem_map_fst_addEntry (key : κ) (a : α) (l : List (κ × SortedSet α)) (other : κ) :
    other ∈ (addEntry key a l).map (·.1) ↔ other = key ∨ other ∈ l.map (·.1) := by
  induction l with
  | nil => simp [addEntry]
  | cons e l ih =>
    obtain ⟨k, held⟩ := e
    by_cases hk : k = key
    · subst hk
      simp [addEntry]
    · simp only [addEntry, hk, if_false, List.map_cons, List.mem_cons, ih]
      exact or_left_comm

theorem mem_keys_add {m : Multimap κ α} {key other : κ} {a : α} :
    other ∈ (m.add key a).keys ↔ other = key ∨ other ∈ m.keys :=
  mem_map_fst_addEntry key a m.entries other

end Multimap

end ImpliedKeys
