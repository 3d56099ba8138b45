import ImpliedKeys.Fields
import ImpliedKeys.Json.Basic

/-!
# Records in JSON

A record is an object with one field per component, where unknown fields are passed over; or an
array of the components in their declared order, where trailing components with a default may be
left out. A tagged record names its variant in one more component, which an array lists first.
Values are taken as they are: no text stands for a number, and no number for a truth value.
-/
namespace ImpliedKeys.Json

/-- The components of a record that are present, by name. -/
def record? (names : List String) : Json → Option (Fields Json)
  | .obj fields => some fields
  | .arr items => if items.length ≤ names.length then some (names.zip items) else none
  | _ => none

/-- The tag of a tagged record and the record without it. -/
def tagged? (tag : String) : Json → Option (Json × Json)
  | .obj fields => (fields.lookup tag).map fun v => (v, .obj (fields.filter (·.1 ≠ tag)))
  | .arr (v :: rest) => some (v, .arr rest)
  | _ => none

def text? : Json → Option String
  | .str s => some s
  | _ => none

def flag? : Json → Option Bool
  | .bool b => some b
  | _ => none

/-- An integer from zero up to, but not including, a bound. -/
def below? (bound : Nat) : Json → Option Nat
  | .int n => if 0 ≤ n ∧ n < bound then some n.toNat else none
  | _ => none

def word? (v : Json) : Option UInt32 := (v.below? UInt32.size).map UInt32.ofNat

def nullable? {α : Type} (read : Json → Option α) : Json → Option (Option α)
  | .null => some none
  | v => (read v).map some

def list? {α : Type} (read : Json → Option α) : Json → Option (List α)
  | .arr items => items.mapM read
  | _ => none

def texts? : Json → Option (List String) := list? text?

section Lists

variable {α β : Type} {read : α → Option β} {write : β → α} {l : List α}

/-- What has been written item by item is read back item by item. -/
theorem mapM_map_eq_some {items : List β} (h : ∀ b ∈ items, read (write b) = some b) :
    (items.map write).mapM read = some items := by
  induction items with
  | nil => rfl
  | cons b items ih =>
    rw [List.forall_mem_cons] at h
    rw [List.map_cons, List.mapM_cons, h.1, ih h.2]
    rfl

theorem exists_of_mem_mapM {items : List β} {b : β} (h : l.mapM read = some items)
    (hb : b ∈ items) : ∃ a ∈ l, read a = some b := by
  induction l generalizing items with
  | nil =>
    cases h
    cases hb
  | cons a l ih =>
    rw [List.mapM_cons] at h
    obtain ⟨first, hfirst, h⟩ := Option.bind_eq_some_iff.mp h
    obtain ⟨rest, hrest, h⟩ := Option.bind_eq_some_iff.mp h
    cases h
    rcases List.mem_cons.mp hb with rfl | hb
    · exact ⟨a, List.mem_cons_self, hfirst⟩
    · obtain ⟨c, hc, hread⟩ := ih hrest hb
      exact ⟨c, List.mem_cons_of_mem _ hc, hread⟩

end Lists

variable {α : Type} {read : Json → Option α} {write : α → Json}

@[simp]
theorem text?_str (s : String) : text? (.str s) = some s := rfl

@[simp]
theorem flag?_bool (b : Bool) : flag? (.bool b) = some b := rfl

theorem nullable?_orNull (hread : ∀ a, read (write a) = some a) (hwrite : ∀ a, write a ≠ .null)
    (a : Option α) : nullable? read (orNull write a) = some a := by
  cases a with
  | none => rfl
  | some a =>
    unfold orNull nullable?
    split
    · next h => exact absurd h (hwrite a)
    · rw [hread, Option.map_some]

@[simp]
theorem nullable?_flag (b : Option Bool) : nullable? flag? (orNull .bool b) = some b :=
  nullable?_orNull flag?_bool (fun _ => by simp) b

@[simp]
theorem nullable?_text (s : Option String) : nullable? text? (orNull .str s) = some s :=
  nullable?_orNull text?_str (fun _ => by simp) s

theorem list?_map {l : List α} (h : ∀ a ∈ l, read (write a) = some a) :
    list? read (.arr (l.map write)) = some l :=
  mapM_map_eq_some h

@[simp]
theorem texts?_texts (l : List String) : texts? (texts l) = some l :=
  list?_map fun _ _ => rfl

/-- The members of a list are read from items. -/
theorem exists_of_mem_list? {v : Json} {l : List α} {a : α} (h : list? read v = some l)
    (ha : a ∈ l) : ∃ w, read w = some a := by
  cases v with
  | arr items =>
    obtain ⟨w, -, hw⟩ := exists_of_mem_mapM h ha
    exact ⟨w, hw⟩
  | null | bool | int | real | str | obj => cases h

end ImpliedKeys.Json
