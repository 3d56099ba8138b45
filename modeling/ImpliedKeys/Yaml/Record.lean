import ImpliedKeys.Json.Basic
import ImpliedKeys.Yaml.Value

/-!
# Records in YAML

A record is a mapping with one entry per component. A record of a known type has texts as keys, and
what it holds beside its components must be readable too. A tagged record is read by its look, save
for a tag of a known type; it may also be a sequence, and a component may be named by its place. No
component is given twice.
-/
namespace ImpliedKeys.Yaml

namespace Value

mutual

/-- A value in JSON. The keys of a map are texts. -/
def toJson? : Value → Option Json
  | .null => some .null
  | .flag b => some (.bool b)
  | .natural n => some (.int n)
  | .signed n => some (.int n)
  | .real x => some (.real x)
  | .text s => some (.str s)
  | .list items => (jsonItems? items).map .arr
  | .map entries => (jsonFields? entries).map .ofFields

def jsonItems? : List Value → Option (List Json)
  | [] => some []
  | v :: rest => do return (← v.toJson?) :: (← jsonItems? rest)

def jsonFields? : List (Value × Value) → Option (List (String × Json))
  | [] => some []
  | (.text name, v) :: rest => do return (name, ← v.toJson?) :: (← jsonFields? rest)
  | _ => none

end

def isText (name : String) : Value → Bool
  | .text s => s = name
  | _ => false

/-- The tag of a tagged record and the record without it. -/
def tagged? (tag : String) : Value → Option (Value × Value)
  | .map entries =>
    let (tags, rest) := entries.partition (·.1.isText tag)
    match tags with
    | [(_, v)] => some (v, .map rest)
    | _ => none
  | .list (v :: rest) => some (v, .list rest)
  | _ => none

/-- The name of the component that a key means, if it means one. -/
def component? (names : List String) : Value → Option (Option String)
  | .text s => some (if s ∈ names then some s else none)
  | .natural n => some names[n]?
  | _ => none

/-- The components that entries give. -/
def components? (names : List String) : List (Value × Value) → Option (Fields Json)
  | [] => some []
  | (key, v) :: rest => do
    let more ← components? names rest
    match ← key.component? names with
    | none => return more
    | some name =>
      if (more.lookup name).isSome then none
      return (name, ← v.toJson?) :: more

/-- The components of a record that are present, by name. The entries of a record without
components may have any keys. -/
def record? (names : List String) : Value → Option (Fields Json)
  | .map entries => if names.isEmpty then some [] else components? names entries
  | .list items =>
    if items.length ≤ names.length then (jsonItems? items).map names.zip else none
  | _ => none

end Value

namespace Node

/-- The components of a record that are present, by name; no value stands for none. -/
def record? (names : List String) (n : Node) : Option (Fields Node) := do
  let (known, others) := (← n.entriesByName?).partition fun e => e.1 ∈ names
  if others.any fun e => (Value.ofNode? e.2).isNone then none
  let repeated (name : String) : Bool := 1 < (known.filter fun e => e.1 = name).length
  if names.any repeated then none
  return known

/-- A record is read if what it holds beside its components is readable and no component is given
twice. -/
theorem record?_eq_some_iff {n : Node} {entries : List (String × Node)} {names : List String}
    {fields : Fields Node} (hentries : n.entriesByName? = some entries) :
    n.record? names = some fields ↔
      (∀ e ∈ entries, e.1 ∉ names → (Value.ofNode? e.2).isSome = true) ∧
        (∀ name ∈ names, (entries.filter fun e => e.1 = name).length ≤ 1) ∧
        entries.filter (fun e => e.1 ∈ names) = fields := by
  have hcount (name : String) (hname : name ∈ names) :
      (entries.filter fun e => e.1 ∈ names).filter (fun e => e.1 = name) =
        entries.filter fun e => e.1 = name := by
    rw [List.filter_filter]
    exact List.filter_congr fun e _ => by grind
  have hunreadable : ((entries.filter (not ∘ fun e => decide (e.1 ∈ names))).any fun e =>
      (Value.ofNode? e.2).isNone) = true ↔
        ¬ ∀ e ∈ entries, e.1 ∉ names → (Value.ofNode? e.2).isSome = true := by simp
  have hrepeated : (names.any fun name => decide (1 < ((entries.filter fun e =>
      decide (e.1 ∈ names)).filter fun e => decide (e.1 = name)).length)) = true ↔
        ¬ ∀ name ∈ names, (entries.filter fun e => e.1 = name).length ≤ 1 := by grind
  unfold record?
  rw [hentries]
  simp only [Option.bind_eq_bind, Option.bind_some, List.partition_eq_filter_filter, hunreadable,
    hrepeated]
  split
  · next hodd => exact ⟨nofun, fun h => absurd h.1 hodd⟩
  · next hread =>
    split
    · next htwice => exact ⟨nofun, fun h => absurd h.2.1 htwice⟩
    · next honce =>
      exact ⟨fun h => ⟨Decidable.not_not.mp hread, Decidable.not_not.mp honce, Option.some.inj h⟩,
        fun h => congrArg some h.2.2⟩

/-- The tag of a tagged record, which is known to be a text, and the record without it. -/
def tagged? (tag : String) (n : Node) : Option (String × Value) :=
  match n with
  | .sequence (first :: rest) => do
    return (← first.string?, .list (← rest.mapM Value.ofNode?))
  | .mapping _ => do
    let keyed ← (← n.entries?).mapM fun (key, v) => (Value.ofNode? key).map (·, v)
    let (tags, rest) := keyed.partition (·.1.isText tag)
    match tags with
    | [(_, v)] =>
      let rest ← rest.mapM fun (key, v) => (Value.ofNode? v).map (key, ·)
      return (← v.string?, .map rest)
    | _ => none
  | _ => none

end Node

end ImpliedKeys.Yaml
