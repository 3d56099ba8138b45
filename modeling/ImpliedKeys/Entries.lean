/-!
# Listed entries

A listing of keyed entries is read through the first value of a key. If no key is listed twice,
the values that are read are exactly those that are listed.
-/
namespace ImpliedKeys

universe u v w

variable {κ : Type u} {α : Type v} {β : Type w} [DecidableEq κ]

theorem lookup_cons_ite (key other : κ) (a : α) (l : List (κ × α)) :
    ((other, a) :: l).lookup key = if key = other then some a else l.lookup key := by
  by_cases h : key = other
  · subst h
    simp
  · have hb : (key == other) = false := beq_false_of_ne h
    simp [List.lookup_cons, hb, h]

theorem mem_of_lookup {l : List (κ × α)} {key : κ} {a : α} (h : l.lookup key = some a) :
    (key, a) ∈ l := by
  obtain ⟨before, after, rfl, -⟩ := List.lookup_eq_some_iff.mp h
  simp

/-- Without repeated keys the look-up finds every listed value. -/
theorem lookup_eq_some_iff_mem {l : List (κ × α)} (hl : (l.map (·.1)).Nodup) {key : κ} {a : α} :
    l.lookup key = some a ↔ (key, a) ∈ l := by
  refine ⟨mem_of_lookup, fun h => ?_⟩
  induction l with
  | nil => cases h
  | cons e l ih =>
    obtain ⟨other, held⟩ := e
    obtain ⟨hnew, hl⟩ := List.nodup_cons.mp hl
    rw [lookup_cons_ite]
    rcases List.mem_cons.mp h with he | hm
    · cases he
      exact if_pos rfl
    · have hne : key ≠ other := fun he => hnew (he ▸ List.mem_map_of_mem (f := (·.1)) hm)
      rw [if_neg hne]
      exact ih hl hm

theorem lookup_map_value (f : κ → α → β) (l : List (κ × α)) (key : κ) :
    (l.map fun e => (e.1, f e.1 e.2)).lookup key = (l.lookup key).map (f key) := by
  induction l with
  | nil => rfl
  | cons e l ih =>
    obtain ⟨other, held⟩ := e
    rw [List.map_cons, lookup_cons_ite, lookup_cons_ite, ih]
    by_cases h : key = other
    · subst h
      simp
    · simp [h]

/-- Keys may be exchanged for others as long as no two of them become one. -/
theorem lookup_map_key {f : κ → κ} (hf : ∀ {a b}, f a = f b → a = b) (l : List (κ × α)) (key : κ) :
    (l.map fun e => (f e.1, e.2)).lookup (f key) = l.lookup key := by
  induction l with
  | nil => rfl
  | cons e l ih =>
    obtain ⟨other, held⟩ := e
    have hkey : f key = f other ↔ key = other := ⟨hf, congrArg f⟩
    simp only [List.map_cons, lookup_cons_ite, ih, hkey]

theorem lookup_filter_key (p : κ → Bool) (l : List (κ × α)) (key : κ) :
    (l.filter fun e => p e.1).lookup key = if p key then l.lookup key else none := by
  induction l with
  | nil => simp
  | cons e l ih =>
    obtain ⟨other, held⟩ := e
    by_cases h : key = other
    · subst h
      by_cases hp : p key <;> simp [hp, ih]
    · by_cases hp : p other <;> simp [hp, h, lookup_cons_ite, ih]

end ImpliedKeys
