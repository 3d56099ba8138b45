import ImpliedKeys.Proofs.Analysis.Findings
import ImpliedKeys.Proofs.Identifier.Keys

/-!
# Columns match by words

A candidate and a column match under a key that both have, or the candidate's table and the column. No
name has an empty key, so two columns never match for want of words: what they share has a letter or
digit. Names without keys match nothing.
-/
namespace ImpliedKeys

open Identifier (IsWord Word columnKeys isWord_of_mem_columnKeys isWord_of_mem_tableKeys
  columnKeys_eq_empty_iff tableKeys tableKeys_eq_empty_iff words)

theorem exists_word_of_mem_matching {config : Config} {s : Schema} {t : Table}
    {parent child : ColumnRef} (h : child ∈ (Lookup.ofSchema config s).matching t parent) :
    ∃ k ∈ columnKeys child.column, IsWord k ∧ k ∈ (Lookup.ofSchema config s).soughtKeys t parent := by
  obtain ⟨-, k, hchild, hsought⟩ := Lookup.mem_matching.mp h
  exact ⟨k, hchild, isWord_of_mem_columnKeys hchild, hsought⟩

/-- Whatever leading words may be dropped, every key of a name has lower-case letters and digits only,
and at least one. A column has no keys exactly if it has no letters and digits or is the word `id`, and
a table exactly if it has no letters and digits. What a candidate and a column match by is not empty. -/
theorem keys_never_degenerate (name : String) (leads : List (List Word)) :
    (∀ k, k ∈ columnKeys name ∨ k ∈ tableKeys leads name →
      k ≠ [] ∧ ∀ c ∈ k, c.isLower = true ∨ c.isDigit = true) ∧
    (columnKeys name = .empty ↔
      (∀ c ∈ name.toList, c.isAlphanum = false) ∨ words name = ["id".toList]) ∧
    (tableKeys leads name = .empty ↔ ∀ c ∈ name.toList, c.isAlphanum = false) ∧
    ∀ config s t parent child, child ∈ (Lookup.ofSchema config s).matching t parent →
      ∃ k ∈ columnKeys child.column, k ≠ [] ∧
        k ∈ (Lookup.ofSchema config s).soughtKeys t parent := by
  refine ⟨fun k hk => ?_, columnKeys_eq_empty_iff, tableKeys_eq_empty_iff, ?_⟩
  · have hword : IsWord k := hk.elim isWord_of_mem_columnKeys isWord_of_mem_tableKeys
    exact ⟨hword.ne_nil, hword.plain⟩
  · intro config s t parent child h
    obtain ⟨k, hchild, hword, hsought⟩ := exists_word_of_mem_matching h
    exact ⟨k, hchild, hword.ne_nil, hsought⟩

/-- A name of separators and `id` has no keys, and the orders of the shop match its accounts by a word
that is left of their columns. -/
theorem keys_never_degenerate_shop :
    columnKeys "__ID" = .empty ∧ tableKeys [[], ["id".toList]] "__ID" ≠ .empty ∧
    ("box".toList ∈ columnKeys "Boxes-ID" ∧ "box".toList ≠ [] ∧
      ∀ c ∈ "box".toList, c.isLower = true ∨ c.isDigit = true) ∧
    ∃ t, shop.table? "accounts" = some t ∧
      ⟨"orders", "account_id"⟩ ∈ (Lookup.ofSchema {} shop).matching t ⟨"accounts", "account_id"⟩ ∧
      ∃ k ∈ columnKeys "account_id", k ≠ [] ∧
        k ∈ (Lookup.ofSchema {} shop).soughtKeys t ⟨"accounts", "account_id"⟩ := by
  obtain ⟨-, hcolumn, htable, -⟩ := keys_never_degenerate "__ID" [[], ["id".toList]]
  have hbox : "box".toList ∈ columnKeys "Boxes-ID" := by decide +kernel
  have hmatch : ⟨"orders", "account_id"⟩ ∈ (Lookup.ofSchema {} shop).matching
      ((shop.table? "accounts").getD default) ⟨"accounts", "account_id"⟩ := by decide +kernel
  obtain ⟨hletters, -, -, hmatching⟩ := keys_never_degenerate "Boxes-ID" []
  refine ⟨hcolumn.mpr (.inr (by decide)), fun hempty => ?_, ⟨hbox, hletters _ (.inl hbox)⟩,
    (shop.table? "accounts").getD default, by decide +kernel, hmatch, hmatching _ _ _ _ _ hmatch⟩
  exact absurd (htable.mp hempty 'I' (by decide)) (by decide)

end ImpliedKeys
