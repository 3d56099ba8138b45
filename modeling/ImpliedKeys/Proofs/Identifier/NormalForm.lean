import ImpliedKeys.Proofs.Identifier.Keys
import ImpliedKeys.Proofs.Identifier.Plural

/-!
# Singulars in normal form

Keys are compared as they are, so that it matters whether a singular is its own singular. It is by
every rule but one: where an `s` stands behind an irregular plural only the `s` is dropped, and the
plural that is left has a singular of its own. The second singular is always its own. What holds of
singulars holds of keys, which end as the words do that they are made of.
-/
namespace ImpliedKeys.Identifier

variable {w v k : Word} {ws : List Word} {keys : SortedSet MatchKey}

/-- The irregular plurals with one more `s`. -/
def doubledEndings : List String := ["peoples", "childrens", "mens", "mices"]

theorem endsInOneOf_doubledEndings_concat :
    EndsInOneOf doubledEndings (w ++ ['s']) ↔ EndsInOneOf irregularEndings w := by
  rw [(by decide : doubledEndings = irregularEndings.map (·.push 's')), endsInOneOf_concat]

/-- Only the `s` behind an irregular plural is dropped. -/
theorem singular_concat_s_of_irregular (h : EndsInOneOf irregularEndings w) :
    singular (w ++ ['s']) = w := by
  have hlong : 3 ≤ w.length := by
    obtain ⟨e, he, hw⟩ := h
    have hall : ∀ e ∈ irregularEndings, 3 ≤ e.toList.length := by decide
    exact (hall e he).trans hw.length_le
  rw [singular_of_long (not_irregular_concat_s w) (by simp; omega), regularSingular_of_irregular h]

/-- An irregular singular has no plural ending of any kind. -/
theorem singular_append_of_listed {plural single : String}
    (hlisted : (plural, single) ∈ irregularPlurals) (stem : Word) :
    singular (stem ++ single.toList) = stem ++ single.toList := by
  have hends : EndsInOneOf (irregularPlurals.map (·.2)) (stem ++ single.toList) :=
    ⟨single, List.mem_map_of_mem hlisted, List.suffix_append stem _⟩
  exact singular_of_apart (by decide) hends

/-- Each way to a singular ends in a normal form, if no `s` was dropped from behind an irregular
plural. -/
theorem singular_singular (h : ¬ EndsInOneOf doubledEndings w) :
    singular (singular w) = singular w := by
  have hway := singularizes w
  generalize hv : singular w = v at hway ⊢
  cases hway with
  | irregular stem hlisted => exact singular_append_of_listed hlisted stem
  | kept => exact hv
  | ies stem => exact singular_concat_y stem
  | es hends => exact singular_of_hissing_end hends
  | s _ hs =>
    exact singular_of_not_s hs fun hplural => h (endsInOneOf_doubledEndings_concat.mpr hplural)

theorem singular_singular_iff :
    singular (singular w) = singular w ↔ ¬ EndsInOneOf doubledEndings w := by
  refine ⟨fun hnormal hdoubled => ?_, singular_singular⟩
  rw [(by decide : doubledEndings = irregularEndings.map (·.push 's'))] at hdoubled
  obtain ⟨v, rfl, hv⟩ := hdoubled.exists_concat
  rw [singular_concat_s_of_irregular hv] at hnormal
  exact singular_ne_of_irregular hv hnormal

/-- The second singular is in normal form for every word. -/
theorem singular_singular_singular (w : Word) :
    singular (singular (singular w)) = singular (singular w) := by
  by_cases h : EndsInOneOf (irregularEndings.map (·.push 's')) w
  · obtain ⟨v, rfl, hv⟩ := h.exists_concat
    rw [singular_concat_s_of_irregular hv]
    exact singular_singular ((by decide : Apart irregularEndings doubledEndings).not_endsInOneOf hv)
  · exact congrArg singular (singular_singular h)

theorem singular_of_mem_singularForms (h : ¬ EndsInOneOf doubledEndings w)
    (hk : k ∈ singularForms w) : singular k = k := by
  rcases mem_singularForms.mp hk with rfl | ⟨-, hies, rfl⟩
  · exact singular_singular h
  · obtain ⟨v, -, hdrop, hie⟩ := exists_ieForm hies
    rw [hdrop]
    exact singular_of_apart (by decide) hie

/-- All keys of a name are in normal form, or the one of all its words is not. -/
theorem KeysOf.normal_iff (h : KeysOf ws keys) :
    (∀ k ∈ keys, singular k = k) ↔ ¬ EndsInOneOf doubledEndings ws.flatten := by
  constructor
  · intro hnormal hdoubled
    have hne : ws ≠ [] := by
      rintro rfl
      exact absurd hdoubled (by decide)
    have hwhole := h.whole hne _ (singular_mem_singularForms ws.flatten)
    exact singular_singular_iff.mp (hnormal _ hwhole) hdoubled
  · intro hregular k hk
    obtain ⟨tail, -, ⟨front, rfl⟩, hk⟩ := h.exists_tail k hk
    refine singular_of_mem_singularForms (fun hdoubled => hregular ?_) hk
    obtain ⟨e, he, htail⟩ := hdoubled
    rw [List.flatten_append]
    exact ⟨e, he, htail.trans (List.suffix_append front.flatten _)⟩

/-- A singular is its own singular unless the word ends in an irregular plural and one more `s`, and
the singular of a singular always is. The keys of a column or a table are all their own singulars
exactly if the words that they are made of do not end so, taken together. Where this holds of both, a
table's key and a column's key are one exactly if their singulars are. -/
theorem singular_normal_unless_doubled :
    (∀ w, singular (singular w) = singular w ↔ ¬ EndsInOneOf doubledEndings w) ∧
    (∀ w, singular (singular (singular w)) = singular (singular w)) ∧
    (∀ column, (∀ k ∈ columnKeys column, singular k = k) ↔
      ¬ EndsInOneOf doubledEndings (matchedWords (words column)).flatten) ∧
    (∀ leads table, (∀ k ∈ tableKeys leads table, singular k = k) ↔
      ¬ EndsInOneOf doubledEndings (words table).flatten) ∧
    ∀ leads table column, ¬ EndsInOneOf doubledEndings (words table).flatten →
      ¬ EndsInOneOf doubledEndings (matchedWords (words column)).flatten →
      ∀ j ∈ tableKeys leads table, ∀ k ∈ columnKeys column, j = k ↔ singular j = singular k := by
  refine ⟨fun w => singular_singular_iff, singular_singular_singular,
    fun column => (keysOf_columnKeys column).normal_iff,
    fun leads table => (keysOf_tableKeys leads table).normal_iff, ?_⟩
  intro leads table column htable hcolumn j hj k hk
  rw [(keysOf_tableKeys leads table).normal_iff.mpr htable j hj,
    (keysOf_columnKeys column).normal_iff.mpr hcolumn k hk]

/-- News categories and the column that refers to them share a key in normal form. -/
theorem singular_normal_unless_doubled_category :
    ¬ EndsInOneOf doubledEndings (words "news_categories").flatten ∧
    ¬ EndsInOneOf doubledEndings (matchedWords (words "parentCategoryId")).flatten ∧
    "category".toList ∈ tableKeys [["news".toList]] "news_categories" ∧
    "category".toList ∈ columnKeys "parentCategoryId" ∧
    singular "category".toList = "category".toList ∧
    ("categorie".toList = "category".toList ↔
      singular "categorie".toList = singular "category".toList) := by
  have htable : ¬ EndsInOneOf doubledEndings (words "news_categories").flatten := by decide +kernel
  have hcolumn : ¬ EndsInOneOf doubledEndings (matchedWords (words "parentCategoryId")).flatten := by
    decide +kernel
  have hj : "categorie".toList ∈ tableKeys [["news".toList]] "news_categories" := by decide +kernel
  have hk : "category".toList ∈ columnKeys "parentCategoryId" := by decide +kernel
  obtain ⟨-, -, hnormal, -, hcompare⟩ := singular_normal_unless_doubled
  exact ⟨htable, hcolumn, by decide +kernel, hk, (hnormal _).mpr hcolumn _ hk,
    hcompare _ _ _ htable hcolumn _ hj _ hk⟩

/-- The singular of `peoples` is `people`, which has the singular `person`. -/
theorem singular_singular_ne_peoples :
    singular (singular "peoples".toList) ≠ singular "peoples".toList := by decide

end ImpliedKeys.Identifier
