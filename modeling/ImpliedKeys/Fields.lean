/-!
# Fields

The components of a record as they are found in a document, by name. A component is read by a
function of its own; one that is absent has a default or makes the record unreadable.
-/
namespace ImpliedKeys

universe u v

/-- The components of a record, by name. -/
abbrev Fields (β : Type v) := List (String × β)

namespace Fields

variable {α : Type u} {β : Type v}

def required? (fields : Fields β) (name : String) (read : β → Option α) : Option α :=
  match fields.lookup name with
  | none => none
  | some v => read v

/-- A component with a default. -/
def optional? (fields : Fields β) (name : String) (default : α) (read : β → Option α) : Option α :=
  match fields.lookup name with
  | none => some default
  | some v => read v

theorem required?_eq_some_iff {fields : Fields β} {name : String} {read : β → Option α} {a : α} :
    fields.required? name read = some a ↔ ∃ v, fields.lookup name = some v ∧ read v = some a := by
  unfold required?
  cases fields.lookup name <;> simp

theorem eq_or_exists_of_optional? {fields : Fields β} {name : String} {default a : α}
    {read : β → Option α} (h : fields.optional? name default read = some a) :
    a = default ∨ ∃ v, read v = some a := by
  unfold optional? at h
  split at h
  · exact .inl (Option.some.inj h).symm
  · next v _ => exact .inr ⟨v, h⟩

end Fields

end ImpliedKeys
