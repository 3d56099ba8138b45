import ImpliedKeys.SortedSet
import ImpliedKeys.Identifier.Singular

/-!
# Match keys

A match key is the normal form under which names are compared: words run together in the singular.
Two names match when their key sets meet. A column that ends in `id` is taken for a reference, so
its keys are those of every tail of the remaining words; a table also matches without a leading
word list that it shares with other tables.
-/
namespace ImpliedKeys.Identifier

/-- A normal form under which names are compared. -/
abbrev MatchKey := Word

/-- Words that end in `id` by themselves, and not because they hold an identifier. -/
def wordsEndingInId : List String :=
  ["uuid", "guid", "paid", "valid", "invalid", "grid", "hybrid", "void", "fluid", "solid"]

/-- The words without the `id` that marks a reference, which is the whole last word or its ending;
`none` if there is no such mark. -/
def withoutId? (ws : List Word) : Option (List Word) :=
  match ws.getLast? with
  | none => none
  | some last =>
    if last = "id".toList then some ws.dropLast
    else if 2 < last.length && endsWith "id" last && !wordsEndingInId.contains (String.ofList last)
    then some (ws.dropLast ++ [dropLetters 2 last])
    else none

theorem withoutId?_append_id (ws : List Word) : withoutId? (ws ++ ["id".toList]) = some ws := by
  simp [withoutId?]

def columnKeys (name : String) : SortedSet MatchKey :=
  let ws := words name
  match withoutId? ws with
  | some rest =>
    .ofList ((List.range rest.length).flatMap fun n => singularForms (rest.drop n).flatten)
  | none => if ws = [] then .empty else .ofList (singularForms ws.flatten)

/-- A column that refers has the keys of every tail of what is left without the `id`. -/
theorem mem_columnKeys_of_withoutId? {name : String} {rest : List Word}
    (h : withoutId? (words name) = some rest) {k : MatchKey} :
    k ∈ columnKeys name ↔
      ∃ tail, (tail ≠ [] ∧ tail <:+ rest) ∧ k ∈ singularForms tail.flatten := by
  rw [columnKeys, h]
  simp only [SortedSet.mem_ofList, List.mem_flatMap, List.mem_range]
  constructor
  · intro hkey
    obtain ⟨n, hn, hk⟩ := hkey
    exact ⟨rest.drop n, ⟨by simpa using hn, List.drop_suffix n rest⟩, hk⟩
  · intro hkey
    obtain ⟨tail, ⟨hne, before, rfl⟩, hk⟩ := hkey
    have hpos : 0 < tail.length := List.length_pos_iff.mpr hne
    exact ⟨before.length, by rw [List.length_append]; omega, by rwa [List.drop_left]⟩

theorem columnKeys_of_withoutId?_eq_none {name : String} (h : withoutId? (words name) = none) :
    columnKeys name =
      if words name = [] then .empty else .ofList (singularForms (words name).flatten) := by
  rw [columnKeys, h]

theorem mem_columnKeys_of_words {name : String} {ws : List Word}
    (h : words name = ws ++ ["id".toList]) {k : MatchKey} :
    k ∈ columnKeys name ↔ ∃ tail, (tail ≠ [] ∧ tail <:+ ws) ∧ k ∈ singularForms tail.flatten :=
  mem_columnKeys_of_withoutId? (by rw [h, withoutId?_append_id])

/-- What remains of a table's words after a leading word list, if something does. -/
def afterLead? (lead ws : List Word) : Option (List Word) :=
  if lead.length < ws.length && lead.isPrefixOf ws then some (ws.drop lead.length) else none

theorem afterLead?_eq_some_iff {lead ws rest : List Word} :
    afterLead? lead ws = some rest ↔ lead ++ rest = ws ∧ rest ≠ [] := by
  unfold afterLead?
  simp only [Bool.and_eq_true, decide_eq_true_eq, List.isPrefixOf_iff_prefix,
    Option.ite_none_right_eq_some, Option.some.injEq]
  constructor
  · intro hafter
    obtain ⟨⟨hlength, hbegins⟩, rfl⟩ := hafter
    refine ⟨List.prefix_iff_eq_append.mp hbegins, fun hnil => ?_⟩
    rw [List.drop_eq_nil_iff] at hnil
    omega
  · intro hwhole
    obtain ⟨rfl, hne⟩ := hwhole
    have hpos : 0 < rest.length := List.length_pos_iff.mpr hne
    exact ⟨⟨by rw [List.length_append]; omega, List.prefix_append lead rest⟩, List.drop_left⟩

theorem afterLead?_append {lead rest : List Word} (h : rest ≠ []) :
    afterLead? lead (lead ++ rest) = some rest :=
  afterLead?_eq_some_iff.mpr ⟨rfl, h⟩

/-- The match keys of a table name, given the leading word lists that may be dropped from it. -/
def tableKeys (leads : List (List Word)) (name : String) : SortedSet MatchKey :=
  let ws := words name
  if ws = [] then .empty
  else .ofList ((ws :: leads.filterMap (afterLead? · ws)).flatMap fun v => singularForms v.flatten)

theorem mem_tableKeys {leads : List (List Word)} {name : String} {k : MatchKey} :
    k ∈ tableKeys leads name ↔ words name ≠ [] ∧
      (k ∈ singularForms (words name).flatten ∨
        ∃ lead ∈ leads, ∃ rest, afterLead? lead (words name) = some rest ∧
          k ∈ singularForms rest.flatten) := by
  unfold tableKeys
  by_cases h : words name = []
  · simp [h]
  · simp only [h, if_false, SortedSet.mem_ofList, List.flatMap_cons, List.mem_append,
      List.mem_flatMap, List.mem_filterMap, ne_eq, not_false_eq_true, true_and]
    apply or_congr_right
    constructor
    · intro hrest
      obtain ⟨rest, ⟨lead, hlead, hafter⟩, hk⟩ := hrest
      exact ⟨lead, hlead, rest, hafter, hk⟩
    · intro hrest
      obtain ⟨lead, hlead, rest, hafter, hk⟩ := hrest
      exact ⟨rest, ⟨lead, hlead, hafter⟩, hk⟩

/-- A table has at least the same keys if more leading word lists may be dropped. -/
theorem mem_tableKeys_of_subset {leads more : List (List Word)} {name : String} {k : MatchKey}
    (h : ∀ lead ∈ leads, lead ∈ more) (hk : k ∈ tableKeys leads name) :
    k ∈ tableKeys more name := by
  rw [mem_tableKeys] at hk ⊢
  obtain ⟨hwords, hkey⟩ := hk
  refine ⟨hwords, hkey.imp_right fun hrest => ?_⟩
  obtain ⟨lead, hlead, hrest⟩ := hrest
  exact ⟨lead, h lead hlead, hrest⟩

end ImpliedKeys.Identifier
