import Mathlib.Data.List.Basic
import ImpliedKeys.Identifier.Singular

/-!
# Singulars by their endings

Which rule makes the singular of a word is decided by how the word ends. The endings are compared
with one another once: where neither of two ends like the other, a word with the one has not the
other. So the singular of a word in `s` is read off what stands before the `s`.
-/
namespace ImpliedKeys.Identifier

variable {w stem k : Word} {ending : String}

theorem endsWith_iff : endsWith ending w = true ↔ ending.toList <:+ w :=
  List.isSuffixOf_iff_suffix

theorem stem?_eq_some_iff : stem? ending w = some stem ↔ stem ++ ending.toList = w :=
  List.isSuffixOf?_eq_some_iff_append_eq

theorem stem?_eq_none_iff : stem? ending w = none ↔ ¬ ending.toList <:+ w := by
  rw [Option.eq_none_iff_forall_not_mem]
  simp only [Option.mem_def, stem?_eq_some_iff]
  exact not_exists.symm

/-- No ending of one list ends like one of another list, nor the other way round. -/
def Apart (es fs : List String) : Prop :=
  ∀ e ∈ es, ∀ f ∈ fs, ¬ e.toList <:+ f.toList ∧ ¬ f.toList <:+ e.toList

instance (es fs : List String) : Decidable (Apart es fs) :=
  inferInstanceAs (Decidable (∀ e ∈ es, ∀ f ∈ fs, ¬ e.toList <:+ f.toList ∧ ¬ f.toList <:+ e.toList))

/-- A word ends in one of some endings. -/
def EndsInOneOf (es : List String) (w : Word) : Prop := ∃ e ∈ es, e.toList <:+ w

instance (es : List String) (w : Word) : Decidable (EndsInOneOf es w) :=
  inferInstanceAs (Decidable (∃ e ∈ es, e.toList <:+ w))

theorem Apart.not_endsInOneOf {es fs : List String} (h : Apart es fs) (hes : EndsInOneOf es w) :
    ¬ EndsInOneOf fs w := by
  intro hfs
  obtain ⟨e, he, hew⟩ := hes
  obtain ⟨f, hf, hfw⟩ := hfs
  obtain ⟨hef, hfe⟩ := h e he f hf
  exact (List.suffix_or_suffix_of_suffix hew hfw).elim hef hfe

theorem endsInOneOf_append {es fs : List String} :
    EndsInOneOf (es ++ fs) w ↔ EndsInOneOf es w ∨ EndsInOneOf fs w := by
  simp only [EndsInOneOf, List.mem_append, or_and_right, exists_or]

theorem any_endsWith_iff {es : List String} :
    es.any (endsWith · w) = true ↔ EndsInOneOf es w := by
  simp only [List.any_eq_true, endsWith_iff, EndsInOneOf]

/-- What ends in a letter has an ending in that letter if what stands before it has the rest. -/
theorem endsInOneOf_concat {es : List String} {c : Char} :
    EndsInOneOf (es.map (·.push c)) (w ++ [c]) ↔ EndsInOneOf es w := by
  constructor
  · intro hends
    obtain ⟨_, hlisted, hw⟩ := hends
    obtain ⟨e, he, rfl⟩ := List.mem_map.mp hlisted
    rw [String.toList_push] at hw
    exact ⟨e, he, List.suffix_append_self_iff.mp hw⟩
  · intro hends
    obtain ⟨e, he, hw⟩ := hends
    refine ⟨e.push c, List.mem_map_of_mem he, ?_⟩
    rw [String.toList_push]
    exact List.suffix_append_self_iff.mpr hw

theorem EndsInOneOf.mono {es fs : List String} (h : EndsInOneOf es w) (hsub : ∀ e ∈ es, e ∈ fs) :
    EndsInOneOf fs w := by
  obtain ⟨e, he, hw⟩ := h
  exact ⟨e, hsub e he, hw⟩

/-- A word with an ending in a letter is something before that letter, with the rest of the ending. -/
theorem EndsInOneOf.exists_concat {es : List String} {c : Char}
    (h : EndsInOneOf (es.map (·.push c)) w) : ∃ v, v ++ [c] = w ∧ EndsInOneOf es v := by
  obtain ⟨_, hlisted, stem, rfl⟩ := h
  obtain ⟨e, he, rfl⟩ := List.mem_map.mp hlisted
  refine ⟨stem ++ e.toList, ?_, e, he, List.suffix_append stem _⟩
  rw [String.toList_push, List.append_assoc]

/-- A word that does not end in `s` has no ending in `s`. -/
theorem not_endsInOneOf_push_s (h : ¬ EndsInOneOf ["s"] w) (es : List String) :
    ¬ EndsInOneOf (es.map (·.push 's')) w := by
  intro hes
  obtain ⟨_, hlisted, hw⟩ := hes
  obtain ⟨e, -, rfl⟩ := List.mem_map.mp hlisted
  rw [String.toList_push] at hw
  exact h ⟨"s", by simp, (List.suffix_append e.toList ['s']).trans hw⟩

/-- The endings of the irregular plurals. -/
def irregularEndings : List String := irregularPlurals.map (·.1)

/-- What stands before the `s` where the plural ends in `es`. -/
def hissingStems : List String := ["sse", "xe", "che", "she"]

/-- What stands before an `s` that is no plural ending. -/
def keptStems : List String := ["s", "u", "i"]

theorem irregularSingular?_eq_none_iff :
    irregularSingular? w = none ↔ ¬ EndsInOneOf irregularEndings w := by
  unfold irregularSingular? EndsInOneOf irregularEndings
  simp only [List.findSome?_eq_none_iff, Option.map_eq_none_iff, stem?_eq_none_iff]
  constructor
  · intro hnone hends
    obtain ⟨_, hlisted, hw⟩ := hends
    obtain ⟨e, he, rfl⟩ := List.mem_map.mp hlisted
    exact hnone e he hw
  · intro hends e he hw
    exact hends ⟨e.1, List.mem_map_of_mem he, hw⟩

theorem exists_irregular_stem (h : EndsInOneOf irregularEndings w) :
    ∃ stem plural single, (plural, single) ∈ irregularPlurals ∧ stem ++ plural.toList = w ∧
      singular w = stem ++ single.toList := by
  unfold singular
  cases hs : irregularSingular? w with
  | none => exact absurd h (irregularSingular?_eq_none_iff.mp hs)
  | some singular =>
    obtain ⟨⟨plural, single⟩, hmem, hmap⟩ := List.exists_of_findSome?_eq_some hs
    obtain ⟨stem, hstem, rfl⟩ := Option.map_eq_some_iff.mp hmap
    exact ⟨stem, plural, single, hmem, stem?_eq_some_iff.mp hstem, rfl⟩

/-- An irregular plural is not its own singular. -/
theorem singular_ne_of_irregular (h : EndsInOneOf irregularEndings w) : singular w ≠ w := by
  obtain ⟨stem, plural, single, hmem, rfl, hsingular⟩ := exists_irregular_stem h
  rw [hsingular]
  intro heq
  have hdiffer : ∀ e ∈ irregularPlurals, e.2.toList ≠ e.1.toList := by decide
  exact hdiffer _ hmem (List.append_cancel_left heq)

theorem singular_of_regular (h : ¬ EndsInOneOf irregularEndings w) :
    singular w = if byteLength w ≤ 3 then w else regularSingular w := by
  rw [singular, irregularSingular?_eq_none_iff.mpr h]

theorem not_irregular_concat_s (w : Word) : ¬ EndsInOneOf irregularEndings (w ++ ['s']) :=
  (by decide : Apart ["s"] irregularEndings).not_endsInOneOf
    ⟨"s", by decide, List.suffix_append w ['s']⟩

theorem length_le_byteLength (w : Word) : w.length ≤ byteLength w := by
  unfold byteLength
  induction w with
  | nil => exact Nat.le_refl 0
  | cons c w ih =>
    have hc : 0 < c.utf8Size := Char.utf8Size_pos c
    rw [List.length_cons, List.foldr_cons]
    omega

theorem singular_of_long (h : ¬ EndsInOneOf irregularEndings w) (hlong : 4 ≤ w.length) :
    singular w = regularSingular w := by
  have hbytes := length_le_byteLength w
  rw [singular_of_regular h, if_neg (by omega)]

/-- The regular rules, by the endings that they look for. -/
theorem regularSingular_eq (w : Word) : regularSingular w =
    match stem? "ies" w with
    | some stem => stem ++ ['y']
    | none =>
      if (hissingStems.map (·.push 's')).any (endsWith · w) then dropLetters 2 w
      else if (keptStems.map (·.push 's')).any (endsWith · w) then w
      else (stem? "s" w).getD w := by
  have hhissing : hissingStems.map (·.push 's') = ["sses", "xes", "ches", "shes"] := by decide
  have hkept : keptStems.map (·.push 's') = ["ss", "us", "is"] := by decide
  rw [hhissing, hkept]
  rfl

theorem regularSingular_ies (stem : Word) :
    regularSingular (stem ++ "ies".toList) = stem ++ ['y'] := by
  rw [regularSingular_eq, stem?_eq_some_iff.mpr rfl]

/-- The rules for a word in `s` that has not the ending `ies`, by what stands before the `s`. -/
theorem regularSingular_concat_s (hie : ¬ EndsInOneOf ["ie"] w) : regularSingular (w ++ ['s']) =
    if EndsInOneOf hissingStems w then dropLetters 2 (w ++ ['s'])
    else if EndsInOneOf keptStems w then w ++ ['s'] else w := by
  have hies : stem? "ies" (w ++ ['s']) = none := by
    rw [stem?_eq_none_iff]
    intro hies
    exact hie (endsInOneOf_concat.mp ⟨"ies", by decide, hies⟩)
  have hs : stem? "s" (w ++ ['s']) = some w := stem?_eq_some_iff.mpr rfl
  rw [regularSingular_eq, hies, hs]
  simp only [any_endsWith_iff, endsInOneOf_concat, Option.getD_some]

theorem regularSingular_of_hissing (h : EndsInOneOf hissingStems w) :
    regularSingular (w ++ ['s']) = dropLetters 2 (w ++ ['s']) := by
  have hie : ¬ EndsInOneOf ["ie"] w :=
    (by decide : Apart hissingStems ["ie"]).not_endsInOneOf h
  rw [regularSingular_concat_s hie, if_pos h]

theorem regularSingular_of_kept (h : EndsInOneOf keptStems w) :
    regularSingular (w ++ ['s']) = w ++ ['s'] := by
  have hie : ¬ EndsInOneOf ["ie"] w := (by decide : Apart keptStems ["ie"]).not_endsInOneOf h
  have hhissing : ¬ EndsInOneOf hissingStems w :=
    (by decide : Apart keptStems hissingStems).not_endsInOneOf h
  rw [regularSingular_concat_s hie, if_neg hhissing, if_pos h]

theorem regularSingular_of_irregular (h : EndsInOneOf irregularEndings w) :
    regularSingular (w ++ ['s']) = w := by
  have hie : ¬ EndsInOneOf ["ie"] w := (by decide : Apart irregularEndings ["ie"]).not_endsInOneOf h
  have hhissing : ¬ EndsInOneOf hissingStems w :=
    (by decide : Apart irregularEndings hissingStems).not_endsInOneOf h
  have hkept : ¬ EndsInOneOf keptStems w :=
    (by decide : Apart irregularEndings keptStems).not_endsInOneOf h
  rw [regularSingular_concat_s hie, if_neg hhissing, if_neg hkept]

theorem regularSingular_of_not_s (h : ¬ EndsInOneOf ["s"] w) : regularSingular w = w := by
  have hies : stem? "ies" w = none :=
    stem?_eq_none_iff.mpr fun hw => not_endsInOneOf_push_s h ["ie"] ⟨"ies", by decide, hw⟩
  have hs : stem? "s" w = none := stem?_eq_none_iff.mpr fun hw => h ⟨"s", by simp, hw⟩
  rw [regularSingular_eq, hies]
  show (if _ then _ else _) = _
  rw [if_neg (mt any_endsWith_iff.mp (not_endsInOneOf_push_s h _)),
    if_neg (mt any_endsWith_iff.mp (not_endsInOneOf_push_s h _)), hs]
  rfl

theorem dropLetters_append (w v : Word) : dropLetters v.length (w ++ v) = w := by
  rw [dropLetters, List.length_append, Nat.add_sub_cancel, List.take_left]

theorem length_dropLetters_le (n : Nat) (w : Word) : (dropLetters n w).length ≤ w.length := by
  rw [dropLetters, List.length_take]
  omega

/-- What stands before `es` where both letters are dropped. -/
def hissingEnds : List String := ["x", "ch", "sh", "ss"]

/-- How a word comes to its singular. -/
inductive Singularizes : Word → Word → Prop
  | irregular (stem : Word) {plural single : String} : (plural, single) ∈ irregularPlurals →
      Singularizes (stem ++ plural.toList) (stem ++ single.toList)
  | kept (w : Word) : Singularizes w w
  | ies (stem : Word) : Singularizes (stem ++ "ies".toList) (stem ++ ['y'])
  | es {stem : Word} : EndsInOneOf hissingEnds stem → Singularizes (stem ++ ['e'] ++ ['s']) stem
  | s {stem : Word} : stem ≠ [] → ¬ EndsInOneOf ["s"] stem → Singularizes (stem ++ ['s']) stem

theorem singularizes_concat_s (hlong : 3 < byteLength (w ++ ['s'])) :
    Singularizes (w ++ ['s']) (regularSingular (w ++ ['s'])) := by
  by_cases hie : EndsInOneOf ["ie"] w
  · obtain ⟨_, he, stem, rfl⟩ := hie
    have hies : stem ++ "ie".toList ++ ['s'] = stem ++ "ies".toList := List.append_assoc ..
    rw [List.mem_singleton.mp he, hies, regularSingular_ies]
    exact .ies stem
  · rw [regularSingular_concat_s hie]
    split
    · next hhissing =>
      rw [(by decide : hissingStems = ["ss", "x", "ch", "sh"].map (·.push 'e'))] at hhissing
      obtain ⟨stem, rfl, hends⟩ := hhissing.exists_concat
      have hdrop : dropLetters 2 (stem ++ ['e'] ++ ['s']) = stem := by
        rw [List.append_assoc]
        exact dropLetters_append stem (['e'] ++ ['s'])
      rw [hdrop]
      exact .es (hends.mono (by decide))
    · split
      · exact .kept _
      · next hkept =>
        refine .s ?_ fun hs => hkept (hs.mono (by decide))
        rintro rfl
        exact absurd hlong (by decide)

theorem singularizes (w : Word) : Singularizes w (singular w) := by
  by_cases hirregular : EndsInOneOf irregularEndings w
  · obtain ⟨stem, plural, single, hmem, rfl, hsingular⟩ := exists_irregular_stem hirregular
    rw [hsingular]
    exact .irregular stem hmem
  · rw [singular_of_regular hirregular]
    split
    · exact .kept w
    · next hlong =>
      by_cases hs : EndsInOneOf ([""].map (·.push 's')) w
      · obtain ⟨v, rfl, -⟩ := hs.exists_concat
        exact singularizes_concat_s (Nat.not_le.mp hlong)
      · rw [regularSingular_of_not_s hs]
        exact .kept w

/-- Only an irregular singular is longer than its plural. -/
theorem length_singular_le (h : ¬ EndsInOneOf irregularEndings w) :
    (singular w).length ≤ w.length := by
  have hway := singularizes w
  generalize singular w = v at hway ⊢
  cases hway with
  | irregular stem hlisted =>
    exact absurd ⟨_, List.mem_map_of_mem hlisted, List.suffix_append stem _⟩ h
  | kept => exact Nat.le_refl _
  | ies stem => simp
  | es => simp
  | s => simp

theorem singular_of_not_s (hs : ¬ EndsInOneOf ["s"] w) (h : ¬ EndsInOneOf irregularEndings w) :
    singular w = w := by
  rw [singular_of_regular h, regularSingular_of_not_s hs, ite_self]

/-- A word is its own singular if it has an ending that no rule looks for. -/
theorem singular_of_apart {es : List String} (hapart : Apart es (["s"] ++ irregularEndings))
    (h : EndsInOneOf es w) : singular w = w := by
  obtain ⟨hs, hregular⟩ := not_or.mp (mt endsInOneOf_append.mpr (hapart.not_endsInOneOf h))
  exact singular_of_not_s hs hregular

/-- A word that ends in `ies` has its singular in `ie` besides the other. -/
theorem mem_singularForms : k ∈ singularForms w ↔
    k = singular w ∨ 3 < byteLength w ∧ EndsInOneOf ["ies"] w ∧ k = dropLetters 1 w := by
  have hies : endsWith "ies" w = true ↔ EndsInOneOf ["ies"] w := by
    simp [EndsInOneOf, endsWith_iff]
  unfold singularForms
  by_cases hform : dropLetters 1 w = singular w
  · simp only [hform, ne_eq, not_true_eq_false, decide_false, Bool.and_false]
    simp +contextual
  · by_cases hlong : 3 < byteLength w <;> by_cases hends : EndsInOneOf ["ies"] w <;>
      simp [hform, hlong, hies, hends]

theorem exists_ieForm (h : EndsInOneOf ["ies"] w) :
    ∃ v, v ++ ['s'] = w ∧ dropLetters 1 w = v ∧ EndsInOneOf ["ie"] v := by
  rw [(by decide : ["ies"] = ["ie"].map (·.push 's'))] at h
  obtain ⟨v, rfl, hie⟩ := h.exists_concat
  exact ⟨v, rfl, dropLetters_append v ['s'], hie⟩

theorem mem_singularForms_of_not_ies (h : ¬ EndsInOneOf ["ies"] w) :
    k ∈ singularForms w ↔ k = singular w := by
  rw [mem_singularForms]
  exact or_iff_left fun hies => h hies.2.1

end ImpliedKeys.Identifier
