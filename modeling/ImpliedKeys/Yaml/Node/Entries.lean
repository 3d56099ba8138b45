import ImpliedKeys.Yaml.Node.Basic

/-!
# The entries of a mapping

A mapping has no two equal keys of its own, and a key `<<` takes over the entries of other mappings
that it does not have itself. Whatever an entry comes from, it is a part of the mapping: its key
and its value are smaller, and a reader may go on with them.
-/
namespace ImpliedKeys.Yaml.Node

/-- Whether a key takes over the entries of its value. -/
def isMergeKey : Node → Bool
  | .scalar .plain _ s => s = "<<"
  | _ => false

def hasRepeatedKey : List (Node × Node) → Bool
  | [] => false
  | (key, _) :: rest => rest.any (fun e => key.sameKey e.1) || hasRepeatedKey rest

/-- The entries with a further one, if it has a new key. -/
def addIfMissing (entries : List (Node × Node)) (e : Node × Node) : List (Node × Node) :=
  if entries.any fun d => d.1.sameKey e.1 then entries else entries ++ [e]

/-- The entries with those of further ones that have a new key. -/
def addMissing (entries more : List (Node × Node)) : List (Node × Node) :=
  more.foldl addIfMissing entries

/-- The entries that a mapping does not take over from others. -/
def ownEntries (entries : List (Node × Node)) : List (Node × Node) :=
  entries.filter fun e => !e.1.isMergeKey

mutual

/-- The entries to be taken over from a value: the own entries of a mapping, and then what it takes
over itself. Of several values, the one that is written last comes first. -/
def offered? : Node → Option (List (Node × Node))
  | .mapping entries => (takenOver? entries).map (ownEntries entries ++ ·)
  | .sequence items => offeredByAll? items
  | .scalar style tag s => if isNull (.scalar style tag s) then some [] else none

def offeredByAll? : List Node → Option (List (Node × Node))
  | [] => some []
  | n :: rest => do
    let first ← n.offered?
    return (← offeredByAll? rest) ++ first

def takenOver? : List (Node × Node) → Option (List (Node × Node))
  | [] => some []
  | (key, value) :: rest => do
    let more ← takenOver? rest
    if key.isMergeKey then return more ++ (← value.offered?) else return more

end

/-- The entries of a mapping: its own, which must have different keys, and those it takes over. Of
the latter the first with a key counts. -/
def entries? : Node → Option (List (Node × Node))
  | .mapping entries =>
    if hasRepeatedKey (ownEntries entries) then none
    else (takenOver? entries).map (addMissing (ownEntries entries))
  | _ => none

/-- Whether both parts of an entry are smaller than a bound. -/
def IsPart (bound : Nat) (e : Node × Node) : Prop := sizeOf e.1 < bound ∧ sizeOf e.2 < bound

theorem IsPart.mono {m n : Nat} {e : Node × Node} (h : IsPart m e) (le : m ≤ n) : IsPart n e :=
  ⟨Nat.lt_of_lt_of_le h.1 le, Nat.lt_of_lt_of_le h.2 le⟩

theorem isPart_of_mem {entries : List (Node × Node)} {e : Node × Node} (h : e ∈ entries) :
    IsPart (sizeOf entries) e := by
  have := List.sizeOf_lt_of_mem h
  obtain ⟨key, value⟩ := e
  simp only [IsPart, Prod.mk.sizeOf_spec] at *
  omega

mutual

/-- What a value offers is a part of it. -/
theorem isPart_of_offered? (n : Node) {es : List (Node × Node)} (h : n.offered? = some es) :
    ∀ e ∈ es, IsPart (sizeOf n) e := by
  match n with
  | .mapping entries =>
    obtain ⟨more, taken, rfl⟩ := Option.map_eq_some_iff.1 h
    intro e he
    rcases List.mem_append.1 he with he | he
    · exact (isPart_of_mem (List.mem_filter.1 he).1).mono (by simp)
    · exact (isPart_of_takenOver? entries taken e he).mono (by simp)
  | .sequence items => exact fun e he => (isPart_of_offeredByAll? items h e he).mono (by simp)
  | .scalar style tag s =>
    rw [offered?] at h
    split at h <;> cases h
    simp

theorem isPart_of_offeredByAll? (items : List Node) {es : List (Node × Node)}
    (h : offeredByAll? items = some es) : ∀ e ∈ es, IsPart (sizeOf items) e := by
  match items with
  | [] =>
    cases h
    simp
  | n :: rest =>
    obtain ⟨first, found, h⟩ := Option.bind_eq_some_iff.1 h
    obtain ⟨more, others, h⟩ := Option.bind_eq_some_iff.1 h
    cases h
    intro e he
    rcases List.mem_append.1 he with he | he
    · exact (isPart_of_offeredByAll? rest others e he).mono (by simp)
    · exact (isPart_of_offered? n found e he).mono (by simp; omega)

theorem isPart_of_takenOver? (entries : List (Node × Node)) {es : List (Node × Node)}
    (h : takenOver? entries = some es) : ∀ e ∈ es, IsPart (sizeOf entries) e := by
  match entries with
  | [] =>
    cases h
    simp
  | (key, value) :: rest =>
    obtain ⟨more, others, h⟩ := Option.bind_eq_some_iff.1 h
    have old : ∀ e ∈ more, IsPart (sizeOf ((key, value) :: rest)) e := fun e he =>
      (isPart_of_takenOver? rest others e he).mono (by simp)
    split at h
    · obtain ⟨new, found, h⟩ := Option.bind_eq_some_iff.1 h
      cases h
      intro e he
      rcases List.mem_append.1 he with he | he
      · exact old e he
      · exact (isPart_of_offered? value found e he).mono (by simp; omega)
    · cases h
      exact old

end

/-- An entry of the extended list is one of either list. -/
theorem mem_addMissing {entries more : List (Node × Node)} {e : Node × Node}
    (h : e ∈ addMissing entries more) : e ∈ entries ∨ e ∈ more := by
  induction more generalizing entries with
  | nil => exact .inl h
  | cons a more ih =>
    rcases ih h with h | h
    · rw [addIfMissing] at h
      split at h
      · exact .inl h
      · rcases List.mem_append.1 h with h | h
        · exact .inl h
        · exact .inr (by simp_all)
    · exact .inr (List.mem_cons_of_mem _ h)

/-- The entries of a mapping are parts of it, also those it takes over. -/
theorem isPart_of_entries? {n : Node} {es : List (Node × Node)} (h : n.entries? = some es)
    {e : Node × Node} (he : e ∈ es) : IsPart (sizeOf n) e := by
  match n with
  | .mapping entries =>
    rw [entries?] at h
    split at h
    · cases h
    · obtain ⟨more, taken, rfl⟩ := Option.map_eq_some_iff.1 h
      rcases mem_addMissing he with he | he
      · exact (isPart_of_mem (List.mem_filter.1 he).1).mono (by simp)
      · exact (isPart_of_takenOver? entries taken e he).mono (by simp)
  | .sequence _ => cases h
  | .scalar _ _ _ => cases h

/-- The entries of a mapping, each known to be a part of it. -/
def parts? (n : Node) : Option (List { e : Node × Node // IsPart (sizeOf n) e }) :=
  match found : n.entries? with
  | none => none
  | some es => some (es.attach.map fun e => ⟨e.1, isPart_of_entries? found e.2⟩)

end ImpliedKeys.Yaml.Node
