import ImpliedKeys.Proofs.Identifier.Singular
import ImpliedKeys.Proofs.Identifier.Splitting

/-!
# Plural tables and the columns that refer to them

A table that is called by a plural and a column of the singular and `id` are matched if one singular
of the plural is one of the word. The two drift apart exactly where the `s` is not taken for a plural
ending, where more than the `s` is dropped, or where the word itself is taken for an irregular plural.
-/
namespace ImpliedKeys.Identifier

variable {w k : Word}

theorem mem_singularForms_concat_s (hlong : 3 ≤ w.length) : k ∈ singularForms (w ++ ['s']) ↔
    k = regularSingular (w ++ ['s']) ∨ EndsInOneOf ["ie"] w ∧ k = w := by
  have hregular := not_irregular_concat_s w
  have hlength : (w ++ ['s']).length = w.length + 1 := by simp
  have hbytes := length_le_byteLength (w ++ ['s'])
  have hies : EndsInOneOf ["ies"] (w ++ ['s']) ↔ EndsInOneOf ["ie"] w := by
    rw [(by decide : ["ies"] = ["ie"].map (·.push 's')), endsInOneOf_concat]
  have hdrop : dropLetters 1 (w ++ ['s']) = w := by simp [dropLetters]
  rw [mem_singularForms, singular_of_long hregular (by omega), hies, hdrop,
    and_iff_right (by omega)]

/-- Every singular of a word that is no irregular plural is at most as long as the word. -/
theorem length_le_of_mem_singularForms (h : ¬ EndsInOneOf irregularEndings w)
    (hk : k ∈ singularForms w) : k.length ≤ w.length := by
  rcases mem_singularForms.mp hk with rfl | ⟨-, -, rfl⟩
  · exact length_singular_le h
  · exact length_dropLetters_le 1 w

/-- What stands before an `s` that does not bring the word back. -/
def driftingStems : List String := keptStems ++ hissingStems ++ irregularEndings

/-- A word and its plural in `s` have a singular in common unless the word ends in a drifting stem. -/
theorem exists_common_form_iff (hlong : 3 ≤ w.length) :
    (∃ k, k ∈ singularForms (w ++ ['s']) ∧ k ∈ singularForms w) ↔
      ¬ EndsInOneOf driftingStems w := by
  simp only [mem_singularForms_concat_s hlong, driftingStems, endsInOneOf_append, not_or]
  constructor
  · intro hcommon
    obtain ⟨k, hplural, hk⟩ := hcommon
    refine ⟨⟨fun hkept => ?_, fun hhissing => ?_⟩, fun hirregular => ?_⟩
    · -- the plural is kept, which is longer than every singular of the word
      have hie := (by decide : Apart keptStems ["ie"]).not_endsInOneOf hkept
      have hregular := (by decide : Apart keptStems irregularEndings).not_endsInOneOf hkept
      have hlength := length_le_of_mem_singularForms hregular hk
      rw [hplural.resolve_right (fun h => hie h.1), regularSingular_of_kept hkept,
        List.length_append, List.length_singleton] at hlength
      omega
    · -- two letters of the plural are dropped, and none of the word
      have hie := (by decide : Apart hissingStems ["ie"]).not_endsInOneOf hhissing
      have hies := (by decide : Apart hissingStems ["ies"]).not_endsInOneOf hhissing
      have hs := (by decide : Apart hissingStems ["s"]).not_endsInOneOf hhissing
      have hregular := (by decide : Apart hissingStems irregularEndings).not_endsInOneOf hhissing
      have hplural := hplural.resolve_right (fun h => hie h.1)
      rw [mem_singularForms_of_not_ies hies, singular_of_not_s hs hregular, hplural,
        regularSingular_of_hissing hhissing] at hk
      have hlength := congrArg List.length hk
      simp only [dropLetters, List.length_take, List.length_append, List.length_singleton]
        at hlength
      omega
    · -- the plural is brought back to the word, but the word is taken for a plural
      have hie := (by decide : Apart irregularEndings ["ie"]).not_endsInOneOf hirregular
      have hies := (by decide : Apart irregularEndings ["ies"]).not_endsInOneOf hirregular
      have hplural := hplural.resolve_right (fun h => hie h.1)
      rw [mem_singularForms_of_not_ies hies, hplural,
        regularSingular_of_irregular hirregular] at hk
      exact singular_ne_of_irregular hirregular hk.symm
  · intro hdrifts
    obtain ⟨⟨hkept, hhissing⟩, hregular⟩ := hdrifts
    have hs : ¬ EndsInOneOf ["s"] w := by
      intro hs
      obtain ⟨e, he, hw⟩ := hs
      exact hkept ⟨e, by rw [List.mem_singleton.mp he]; decide, hw⟩
    have hself : w ∈ singularForms w :=
      mem_singularForms.mpr (.inl (singular_of_not_s hs hregular).symm)
    refine ⟨w, ?_, hself⟩
    by_cases hie : EndsInOneOf ["ie"] w
    · exact .inr ⟨hie, rfl⟩
    · left
      rw [regularSingular_concat_s hie, if_neg hhissing, if_neg hkept]

/-- A table and a column have a match key in common, with no leading words dropped. -/
def NamesMatch (table column : String) : Prop :=
  ∃ k, k ∈ tableKeys [] table ∧ k ∈ columnKeys column

/-- A column that is called by one plain word and `id` refers by the singulars of that word. -/
theorem mem_columnKeys_reference {name : String} (h : IsPlain name.toList)
    (hne : name.toList ≠ []) :
    k ∈ columnKeys (name ++ "_id") ↔ k ∈ singularForms name.toList := by
  have hid : wordsOf "id".toList = ["id".toList] :=
    (by decide : IsPlain "id".toList).wordsOf_eq (by decide)
  have htext : (name ++ "_id").toList = name.toList ++ '_' :: "id".toList := by
    rw [String.toList_append, (by decide : "_id".toList = '_' :: "id".toList)]
  have hwords : words (name ++ "_id") = [name.toList] ++ ["id".toList] := by
    rw [words, htext, wordsOf_append (endsBefore_separator (by decide) _ _),
      wordsOf_separator (by decide), h.wordsOf_eq hne, hid]
  rw [mem_columnKeys_of_words hwords]
  constructor
  · intro htail
    obtain ⟨tail, ⟨hnonempty, hsuffix⟩, hk⟩ := htail
    have htail : tail = [name.toList] := by
      rcases List.suffix_cons_iff.mp hsuffix with heq | hnil
      · exact heq
      · exact absurd (List.suffix_nil.mp hnil) hnonempty
    rw [htail, List.flatten_singleton] at hk
    exact hk
  · intro hk
    exact ⟨[name.toList], ⟨by simp, List.suffix_refl _⟩, by rwa [List.flatten_singleton]⟩

/-- A table that is called by one plain word matches by the singulars of that word. -/
theorem mem_tableKeys_of_isPlain {name : String} (h : IsPlain name.toList)
    (hne : name.toList ≠ []) : k ∈ tableKeys [] name ↔ k ∈ singularForms name.toList := by
  have hwords : words name = [name.toList] := h.wordsOf_eq hne
  simp [mem_tableKeys, hwords]

theorem namesMatch_reference_iff {table name : String} (htable : IsPlain table.toList)
    (hname : IsPlain name.toList) (hne : table.toList ≠ []) (hne' : name.toList ≠ []) :
    NamesMatch table (name ++ "_id") ↔
      ∃ k, k ∈ singularForms table.toList ∧ k ∈ singularForms name.toList := by
  simp only [NamesMatch, mem_tableKeys_of_isPlain htable hne,
    mem_columnKeys_reference hname hne']

/-- After a hissing sound the plural in `es` has the word for its singular. -/
theorem singular_concat_es (h : EndsInOneOf ["x", "ch", "sh", "ss"] w) (hlong : 2 ≤ w.length) :
    singular (w ++ ['e'] ++ ['s']) = w := by
  have hhissing : EndsInOneOf hissingStems (w ++ ['e']) := by
    rw [(by decide : hissingStems = ["ss", "x", "ch", "sh"].map (·.push 'e')), endsInOneOf_concat]
    exact h.mono (by decide)
  rw [singular_of_long (not_irregular_concat_s _) (by simp; omega), regularSingular_of_hissing hhissing]
  simp [dropLetters]

/-- A word that ends in a hissing sound is its own singular. -/
theorem singular_of_hissing_end (h : EndsInOneOf (["x", "ch", "sh"] ++ ["ss"]) w) :
    singular w = w := by
  rcases endsInOneOf_append.mp h with hsoft | hdouble
  · exact singular_of_apart (by decide) hsoft
  · rw [(by decide : ["ss"] = ["s"].map (·.push 's'))] at hdouble
    obtain ⟨v, rfl, hs⟩ := hdouble.exists_concat
    have hkept : EndsInOneOf keptStems v := hs.mono (by decide)
    rw [singular_of_regular (not_irregular_concat_s v), regularSingular_of_kept hkept, ite_self]

/-- The plural in `ies` has the word in `y` for its singular. -/
theorem singular_concat_ies (h : 1 ≤ w.length) : singular (w ++ "ies".toList) = w ++ ['y'] := by
  have hregular : ¬ EndsInOneOf irregularEndings (w ++ "ies".toList) :=
    (by decide : Apart ["ies"] irregularEndings).not_endsInOneOf
      ⟨"ies", by decide, List.suffix_append w _⟩
  rw [singular_of_long hregular (by simp; omega), regularSingular_ies]

theorem singular_concat_y (w : Word) : singular (w ++ ['y']) = w ++ ['y'] :=
  singular_of_apart (by decide : Apart ["y"] _) ⟨"y", by decide, List.suffix_append w ['y']⟩

/-- A table of a plural matches the column of a word that has the singular of the plural. -/
theorem namesMatch_of_singular_eq {table name : String} (htable : IsPlain table.toList)
    (hname : IsPlain name.toList) (hne : table.toList ≠ []) (hne' : name.toList ≠ [])
    (h : singular table.toList = singular name.toList) : NamesMatch table (name ++ "_id") := by
  rw [namesMatch_reference_iff htable hname hne hne']
  refine ⟨singular name.toList, ?_, singular_mem_singularForms _⟩
  rw [← h]
  exact singular_mem_singularForms _

/-- The plural in `s` of a word of three letters or more matches the column that refers to the word
unless the word ends in one of eleven ways. The plural in `es` matches after `x`, `ch`, `sh` and
`ss`, and the plural in `ies` matches for `y`. -/
theorem plural_matches_reference {w : String} (hplain : IsPlain w.toList) (hlong : 3 ≤ w.length) :
    (NamesMatch (w ++ "s") (w ++ "_id") ↔ ¬ EndsInOneOf
      ["s", "u", "i", "sse", "xe", "che", "she", "people", "children", "men", "mice"] w.toList) ∧
    (EndsInOneOf ["x", "ch", "sh", "ss"] w.toList → NamesMatch (w ++ "es") (w ++ "_id")) ∧
    ∀ v, w = v ++ "y" → NamesMatch (v ++ "ies") (w ++ "_id") := by
  have hlong : 3 ≤ w.toList.length := by rwa [String.length_toList]
  have hne : w.toList ≠ [] := List.ne_nil_of_length_pos (by omega)
  refine ⟨?_, fun hends => ?_, fun v hv => ?_⟩
  · have hs : (w ++ "s").toList = w.toList ++ ['s'] := String.toList_append
    rw [namesMatch_reference_iff (by rw [hs]; exact hplain.append (by decide)) hplain
      (by simp [hs]) hne, hs]
    exact exists_common_form_iff hlong
  · have hes : (w ++ "es").toList = w.toList ++ ['e'] ++ ['s'] := by
      rw [String.toList_append, List.append_assoc]
      rfl
    apply namesMatch_of_singular_eq
      (by rw [hes]; exact (hplain.append (by decide)).append (by decide)) hplain (by simp [hes]) hne
    rw [hes, singular_concat_es hends (by omega), singular_of_hissing_end hends]
  · subst hv
    have hy : (v ++ "y").toList = v.toList ++ ['y'] := String.toList_append
    have hies : (v ++ "ies").toList = v.toList ++ "ies".toList := String.toList_append
    rw [hy] at hplain hlong
    have hv : IsPlain v.toList := hplain.of_append_left
    rw [List.length_append, List.length_singleton] at hlong
    apply namesMatch_of_singular_eq (by rw [hies]; exact hv.append (by decide))
      (by rw [hy]; exact hplain) (by simp [hies]) hne
    rw [hies, hy, singular_concat_ies (by omega), singular_concat_y]

/-- `axes` is not found again under `axe_id`; `branches` and `categories` are found. -/
theorem plural_matches_reference_by_ending :
    (IsPlain "axe".toList ∧ 3 ≤ "axe".length ∧ ¬ NamesMatch "axes" "axe_id") ∧
    (IsPlain "branch".toList ∧ 3 ≤ "branch".length ∧ NamesMatch "branches" "branch_id") ∧
    (IsPlain "category".toList ∧ 3 ≤ "category".length ∧
      NamesMatch "categories" "category_id") := by
  have haxe := plural_matches_reference (w := "axe") (by decide) (by decide)
  have hbranch := plural_matches_reference (w := "branch") (by decide) (by decide)
  have hcategory := plural_matches_reference (w := "category") (by decide) (by decide)
  refine ⟨⟨by decide, by decide, fun haxes => ?_⟩, ⟨by decide, by decide, ?_⟩,
    ⟨by decide, by decide, ?_⟩⟩
  · exact haxe.1.mp haxes (by decide)
  · exact hbranch.2.1 (by decide)
  · exact hcategory.2.2 "categor" (by decide)

end ImpliedKeys.Identifier
