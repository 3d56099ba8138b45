import Mathlib
import ImpliedKeys.Proofs.Identifier.Singular
import ImpliedKeys.Proofs.Identifier.Splitting

/-!
# Styles of naming

One list of words is spelled with a separator between them, or run together with a capital where a
word begins. The words are read back whatever the style, so a name has the same match keys in each.
Nor does it matter whether the `id` of a reference is a word of its own or stands at the end of the
last one: what is spelled in capitals is split before it where the last word has digits, and is not
split elsewhere.
-/
namespace ImpliedKeys.Identifier

variable {w v : Word} {ws : List Word}

/-- The styles in which a list of words is spelled as one name. -/
inductive Style
  | snake
  | kebab
  | spaced
  | screaming
  | camel
  | pascal
deriving Repr, DecidableEq

def capitalized : Word → List Char
  | [] => []
  | c :: w => c.toUpper :: w

def inCapitals (w : Word) : List Char := w.map Char.toUpper

namespace Style

def letters : Style → List Word → List Char
  | snake, ws => ['_'].intercalate ws
  | kebab, ws => ['-'].intercalate ws
  | spaced, ws => [' '].intercalate ws
  | screaming, ws => ['_'].intercalate (ws.map inCapitals)
  | camel, [] => []
  | camel, w :: ws => (w :: ws.map capitalized).flatten
  | pascal, ws => (ws.map capitalized).flatten

def spell (style : Style) (ws : List Word) : String := String.ofList (style.letters ws)

theorem words_spell (style : Style) (ws : List Word) :
    words (style.spell ws) = wordsOf (style.letters ws) := by
  rw [words, spell, String.toList_ofList]

end Style

theorem isUpper_toUpper {c : Char} (h : c.isLower = true) : c.toUpper.isUpper = true := by
  rw [Char.isUpper_toUpper_eq_isAlpha, Char.isAlpha, h, Bool.or_true]

/-- A plain word that has a letter to put a capital for, and something after it. -/
structure IsCapitalizable (w : Word) : Prop where
  plain : IsPlain w
  two_le_length : 2 ≤ w.length
  begins : ∀ c ∈ w.head?, c.isLower = true

/-- Letters and then digits, at least two characters. -/
structure IsOrdinary (w : Word) : Prop where
  two_le_length : 2 ≤ w.length
  parts : ∃ letters digits, w = letters ++ digits ∧ letters ≠ [] ∧
    (∀ c ∈ letters, c.isLower = true) ∧ ∀ c ∈ digits, c.isDigit = true

theorem IsOrdinary.isCapitalizable (h : IsOrdinary w) : IsCapitalizable w := by
  obtain ⟨hlong, letters, digits, rfl, hne, hletters, hdigits⟩ := h
  refine ⟨fun c hc => ?_, hlong, fun c hc => ?_⟩
  · exact (List.mem_append.mp hc).imp (hletters c) (hdigits c)
  · rw [List.head?_append_of_ne_nil letters hne] at hc
    exact hletters c (List.mem_of_mem_head? hc)

namespace IsCapitalizable

theorem ne_nil (h : IsCapitalizable w) : w ≠ [] := by
  rintro rfl
  exact absurd h.two_le_length (by decide)

theorem append (h : IsCapitalizable w) (hv : IsPlain v) : IsCapitalizable (w ++ v) where
  plain := h.plain.append hv
  two_le_length := by
    have := h.two_le_length
    rw [List.length_append]
    omega
  begins := by
    rw [List.head?_append_of_ne_nil w h.ne_nil]
    exact h.begins

theorem wordsOf_eq (h : IsCapitalizable w) : wordsOf w = [w] := h.plain.wordsOf_eq h.ne_nil

theorem wordsOf_capitalized (h : IsCapitalizable w) : wordsOf (capitalized w) = [w] := by
  have hne := h.ne_nil
  obtain ⟨hplain, -, hbegins⟩ := h
  cases w with
  | nil => exact absurd rfl hne
  | cons c w =>
    have hc : c.toUpper.isAlphanum = true := by
      rw [Char.isAlphanum, Char.isAlpha, isUpper_toUpper (hbegins c rfl), Bool.true_or,
        Bool.true_or]
    have hrest : IsPlain w := fun d hd => hplain d (List.mem_cons_of_mem c hd)
    rw [capitalized, wordsOf_run (hrest.isRun_cons hc), List.map_cons,
      Char.toLower_toUpper_eq_toLower, ← List.map_cons, hplain.map_toLower]

/-- A capitalized word begins with a hump, after a plain text. -/
theorem endsBefore_capitalized (hv : IsCapitalizable v) {l : List Char}
    (hl : ∀ c ∈ l.getLast?, c.isLower = true ∨ c.isDigit = true) :
    EndsBefore l (capitalized v) := by
  intro c hc d hd _
  cases v with
  | nil => cases hd
  | cons a v =>
    cases hd
    rw [isHump, isUpper_toUpper (hv.begins a rfl), Bool.and_true, Bool.or_eq_true]
    exact hl c hc

/-- A capitalized word ends as the word does. -/
theorem plain_getLast_capitalized (h : IsCapitalizable w) :
    ∀ c ∈ (capitalized w).getLast?, c.isLower = true ∨ c.isDigit = true := by
  obtain ⟨hplain, hlong, -⟩ := h
  match w, hlong with
  | a :: b :: w, _ =>
    intro c hc
    rw [capitalized, List.getLast?_cons_cons] at hc
    exact hplain c (List.mem_cons_of_mem a (List.mem_of_getLast? hc))

end IsCapitalizable

theorem isChain_capitalized (h : ∀ w ∈ ws, IsCapitalizable w) :
    (ws.map capitalized).IsChain EndsBefore := by
  rw [List.isChain_map]
  refine List.Pairwise.isChain (List.pairwise_of_forall_mem_list fun w hw v hv => ?_)
  exact (h v hv).endsBefore_capitalized (h w hw).plain_getLast_capitalized

theorem capitalized_ne_nil (h : ∀ w ∈ ws, IsCapitalizable w) :
    ∀ l ∈ ws.map capitalized, l ≠ [] := by
  intro l hl
  obtain ⟨w, hw, rfl⟩ := List.mem_map.mp hl
  have hne := (h w hw).ne_nil
  cases w with
  | nil => exact absurd rfl hne
  | cons c w => exact List.cons_ne_nil _ _

theorem flatMap_wordsOf_capitalized (h : ∀ w ∈ ws, IsCapitalizable w) :
    (ws.map capitalized).flatMap wordsOf = ws := by
  rw [List.flatMap_map]
  exact flatMap_eq_self fun w hw => (h w hw).wordsOf_capitalized

/-- What is spelled is read back, in every style but in capitals. -/
theorem Style.wordsOf_letters {style : Style} (hstyle : style ≠ .screaming)
    (h : ∀ w ∈ ws, IsCapitalizable w) : wordsOf (style.letters ws) = ws := by
  have hseparated {c : Char} (hc : c.isAlphanum = false) : wordsOf ([c].intercalate ws) = ws := by
    rw [wordsOf_intercalate (by simp) (by simpa using hc)]
    exact flatMap_eq_self fun w hw => (h w hw).wordsOf_eq
  cases style with
  | snake => exact hseparated (by decide)
  | kebab => exact hseparated (by decide)
  | spaced => exact hseparated (by decide)
  | screaming => exact absurd rfl hstyle
  | camel =>
    cases ws with
    | nil => rfl
    | cons w ws =>
      have hw : IsCapitalizable w := h w (by simp)
      have hrest : ∀ v ∈ ws, IsCapitalizable v := fun v hv => h v (List.mem_cons_of_mem w hv)
      have hchain : (w :: ws.map capitalized).IsChain EndsBefore := by
        refine List.isChain_cons.mpr ⟨fun l hl => ?_, isChain_capitalized hrest⟩
        obtain ⟨v, hv, rfl⟩ := List.mem_map.mp (List.mem_of_mem_head? hl)
        exact (hrest v hv).endsBefore_capitalized fun c hc => hw.plain c (List.mem_of_getLast? hc)
      have hne : ∀ l ∈ w :: ws.map capitalized, l ≠ [] :=
        List.forall_mem_cons.mpr ⟨hw.ne_nil, capitalized_ne_nil hrest⟩
      rw [letters, wordsOf_flatten hne hchain, List.flatMap_cons, hw.wordsOf_eq,
        flatMap_wordsOf_capitalized hrest]
      rfl
  | pascal =>
    rw [letters, wordsOf_flatten (capitalized_ne_nil h) (isChain_capitalized h),
      flatMap_wordsOf_capitalized h]

theorem toUpper_of_isDigit {c : Char} (h : c.isDigit = true) : c.toUpper = c := by
  have hlower : c.isLower = false := (Bool.or_eq_false_iff.mp (not_isAlpha_of_isDigit h)).2
  exact Char.toUpper_eq_of_not_isLower (by simp [hlower])

/-- No hump stands after a capital. -/
theorem not_isHump_of_isUpper {a : Char} (h : a.isUpper = true) (b : Char) :
    isHump a b = false := by
  have hdigit : a.isDigit = false := by
    cases hd : a.isDigit with
    | false => rfl
    | true => rw [not_isUpper_of_isDigit hd] at h; cases h
  simp [isHump, hdigit, Char.not_isLower_of_isUpper h]

/-- Capitals and then digits are a run. -/
theorem IsOrdinary.isRun_inCapitals (h : IsOrdinary w) : IsRun (inCapitals w) := by
  have hne : inCapitals w ≠ [] := mt List.map_eq_nil_iff.mp h.isCapitalizable.ne_nil
  obtain ⟨-, letters, digits, rfl, -, hletters, hdigits⟩ := h
  have hsplit : inCapitals (letters ++ digits) = inCapitals letters ++ digits := by
    have hkept : digits.map Char.toUpper = digits.map id :=
      List.map_congr_left fun c hc => toUpper_of_isDigit (hdigits c hc)
    rw [inCapitals, List.map_append, hkept, List.map_id]
    rfl
  have hcapital : ∀ c ∈ inCapitals letters, c.isUpper = true := by
    intro c hc
    obtain ⟨d, hd, rfl⟩ := List.mem_map.mp hc
    exact isUpper_toUpper (hletters d hd)
  rw [hsplit] at hne ⊢
  refine ⟨hne, fun c hc => ?_, List.Pairwise.isChain (List.pairwise_append.mpr ⟨?_, ?_, ?_⟩)⟩
  · rcases List.mem_append.mp hc with hc | hc
    · simp [Char.isAlphanum, Char.isAlpha, hcapital c hc]
    · simp [Char.isAlphanum, hdigits c hc]
  · exact List.pairwise_of_forall_mem_list fun a ha b _ => not_isHump_of_isUpper (hcapital a ha) b
  · refine List.pairwise_of_forall_mem_list fun a _ b hb => ?_
    simp [isHump, not_isUpper_of_isDigit (hdigits b hb)]
  · exact fun a ha b _ => not_isHump_of_isUpper (hcapital a ha) b

theorem IsOrdinary.wordsOf_inCapitals (h : IsOrdinary w) : wordsOf (inCapitals w) = [w] := by
  have hsame : (inCapitals w).map Char.toLower = w.map Char.toLower := by
    simp [inCapitals]
  rw [wordsOf_run h.isRun_inCapitals, hsame, h.isCapitalizable.plain.map_toLower]

theorem wordsOf_screaming (ws : List Word) :
    wordsOf (Style.screaming.letters ws) = ws.flatMap fun w => wordsOf (inCapitals w) := by
  rw [Style.letters, wordsOf_intercalate (by simp) (by simp), List.flatMap_map]

/-- Ordinary words are read back from every spelling. -/
theorem Style.words_spell_ordinary (style : Style) (h : ∀ w ∈ ws, IsOrdinary w) :
    words (style.spell ws) = ws := by
  rw [words_spell]
  by_cases hstyle : style = .screaming
  · rw [hstyle, wordsOf_screaming]
    exact flatMap_eq_self fun w hw => (h w hw).wordsOf_inCapitals
  · exact wordsOf_letters hstyle fun w hw => (h w hw).isCapitalizable

theorem isOrdinary_letters_id {letters : Word} (hletters : ∀ c ∈ letters, c.isLower = true) :
    IsOrdinary (letters ++ "id".toList) where
  two_le_length := by
    rw [List.length_append]
    exact Nat.le_add_left 2 letters.length
  parts := by
    have hid : ∀ c ∈ "id".toList, c.isLower = true := List.all_eq_true.mp (by decide)
    refine ⟨letters ++ "id".toList, [], by simp, by simp, fun c hc => ?_, by simp⟩
    exact (List.mem_append.mp hc).elim (hletters c) (hid c)

/-- In capitals, what stands after a digit begins with a hump. -/
theorem endsBefore_inCapitals {c d : Char} (hc : c.isDigit = true) (hd : d.isLower = true)
    (l rest : Word) : EndsBefore (inCapitals (l ++ [c])) (inCapitals (d :: rest)) := by
  intro c' hc' d' hd' _
  rw [inCapitals, List.map_append, List.map_singleton, toUpper_of_isDigit hc,
    List.getLast?_concat] at hc'
  cases hc'
  cases hd'
  rw [isHump, hc, Bool.or_true, Bool.true_and]
  exact isUpper_toUpper hd

/-- A word with `id` glued on is one word in capitals, or is split before the `id`. -/
theorem IsOrdinary.wordsOf_glued (h : IsOrdinary w) :
    wordsOf (inCapitals (w ++ "id".toList)) = [w ++ "id".toList] ∨
      wordsOf (inCapitals (w ++ "id".toList)) = [w, "id".toList] := by
  have hword := h.wordsOf_inCapitals
  obtain ⟨-, letters, digits, rfl, -, hletters, hdigits⟩ := h
  rcases List.eq_nil_or_concat' digits with rfl | ⟨front, c, rfl⟩
  · rw [List.append_nil]
    exact .inl (isOrdinary_letters_id hletters).wordsOf_inCapitals
  · right
    have hend : EndsBefore (inCapitals (letters ++ front ++ [c])) (inCapitals "id".toList) :=
      endsBefore_inCapitals (hdigits c (by simp)) (by decide) _ _
    rw [← List.append_assoc] at hword ⊢
    rw [inCapitals, List.map_append]
    exact (wordsOf_append hend).trans (congrArg (· ++ _) hword)

/-- A name whose last word has `id` glued on is read back as it is, or with the `id` apart. -/
theorem Style.words_spell_glued (style : Style) {front : List Word} {last : Word}
    (hfront : ∀ w ∈ front, IsOrdinary w) (hlast : IsOrdinary last) :
    words (style.spell (front ++ [last ++ "id".toList])) = front ++ [last ++ "id".toList] ∨
      words (style.spell (front ++ [last ++ "id".toList])) = front ++ [last] ++ ["id".toList] := by
  rw [words_spell]
  by_cases hstyle : style = .screaming
  · have hread : front.flatMap (fun w => wordsOf (inCapitals w)) = front :=
      flatMap_eq_self fun w hw => (hfront w hw).wordsOf_inCapitals
    rw [hstyle, wordsOf_screaming, List.flatMap_append, List.flatMap_singleton, hread,
      List.append_assoc]
    exact hlast.wordsOf_glued.imp (congrArg (front ++ ·)) (congrArg (front ++ ·))
  · left
    apply wordsOf_letters hstyle
    rw [List.forall_mem_append, List.forall_mem_singleton]
    exact ⟨fun w hw => (hfront w hw).isCapitalizable, hlast.isCapitalizable.append (by decide)⟩

theorem dropLetters_glued (last : Word) : dropLetters 2 (last ++ "id".toList) = last :=
  dropLetters_append last "id".toList

/-- The `id` at the end of the last word is taken off, unless the word ends so by itself. -/
theorem withoutId?_append_glued {front : List Word} {last : Word} (hne : last ≠ []) :
    withoutId? (front ++ [last ++ "id".toList]) =
      if String.ofList (last ++ "id".toList) ∈ wordsEndingInId then none
      else some (front ++ [last]) := by
  have hapart : last ++ "id".toList ≠ "id".toList := by
    intro heq
    exact hne (List.append_left_eq_self.mp heq)
  have hlong : 2 < (last ++ "id".toList).length := by
    rw [List.length_append]
    exact Nat.lt_add_of_pos_left (List.length_pos_iff.mpr hne)
  have hends : endsWith "id" (last ++ "id".toList) = true :=
    endsWith_iff.mpr (List.suffix_append last _)
  unfold withoutId?
  rw [List.getLast?_concat, List.dropLast_concat]
  show (if _ = _ then _ else if _ then _ else _) = _
  rw [if_neg hapart, dropLetters_glued, hends, decide_eq_true hlong, List.contains_eq_mem]
  by_cases hlisted : String.ofList (last ++ "id".toList) ∈ wordsEndingInId
  · rw [if_pos hlisted, decide_eq_true hlisted]
    rfl
  · rw [if_neg hlisted, decide_eq_false hlisted]
    rfl

/-- Names that are read as the same words have the same keys. -/
theorem columnKeys_congr {name other : String} (h : words name = words other) :
    columnKeys name = columnKeys other := by
  rw [columnKeys, columnKeys, h]

theorem tableKeys_congr {name other : String} (h : words name = words other)
    (leads : List (List Word)) : tableKeys leads name = tableKeys leads other := by
  rw [tableKeys, tableKeys, h]

theorem mem_columnKeys_of_withoutId?_eq_none {name : String} {k : Word}
    (h : withoutId? (words name) = none) (hk : k ∈ columnKeys name) :
    k ∈ singularForms (words name).flatten := by
  rw [columnKeys_of_withoutId?_eq_none h] at hk
  split at hk
  · exact absurd hk SortedSet.not_mem_empty
  · exact SortedSet.mem_ofList.mp hk

/-- A text in `id` is its own singular. -/
theorem eq_of_mem_singularForms_id {k : Word} (h : k ∈ singularForms (w ++ "id".toList)) :
    k = w ++ "id".toList := by
  have hid : EndsInOneOf ["id"] (w ++ "id".toList) := ⟨"id", by simp, List.suffix_append w _⟩
  rwa [mem_singularForms_of_not_ies ((by decide : Apart ["id"] ["ies"]).not_endsInOneOf hid),
    singular_of_apart (by decide) hid] at h

/-- A listed word is ordinary, and without its `id` it is its own singular. -/
theorem isOrdinary_of_listed (hlisted : String.ofList w ∈ wordsEndingInId) : IsOrdinary w := by
  have hall : ∀ e ∈ wordsEndingInId, 2 ≤ e.toList.length ∧ e.toList.all Char.isLower = true := by
    decide
  have hw := hall _ hlisted
  rw [String.toList_ofList] at hw
  obtain ⟨hlong, hletters⟩ := hw
  refine ⟨hlong, w, [], by simp, ?_, List.all_eq_true.mp hletters, by simp⟩
  exact List.ne_nil_of_length_pos (by omega)

theorem singular_of_listed (hlisted : String.ofList (w ++ "id".toList) ∈ wordsEndingInId) :
    singular w = w := by
  have hall : ∀ e ∈ wordsEndingInId,
      singular (dropLetters 2 e.toList) = dropLetters 2 e.toList := by decide
  have hw := hall _ hlisted
  rwa [String.toList_ofList, dropLetters_glued] at hw

section Glued

variable {front : List Word} {last : Word}

theorem words_spell_apart (style : Style) (hfront : ∀ w ∈ front, IsOrdinary w)
    (hlast : IsOrdinary last) :
    words (style.spell (front ++ [last] ++ ["id".toList])) = front ++ [last] ++ ["id".toList] := by
  have hid : IsOrdinary ([] ++ "id".toList) := isOrdinary_letters_id fun c hc => by cases hc
  have happart : ∀ w ∈ front ++ [last] ++ ["id".toList], IsOrdinary w := by
    simp only [List.forall_mem_append, List.forall_mem_singleton]
    exact ⟨⟨hfront, hlast⟩, hid⟩
  exact style.words_spell_ordinary happart

/-- A column has the same keys with the `id` apart and with the `id` glued on to the last word. -/
theorem columnKeys_glued (hfront : ∀ w ∈ front, IsOrdinary w) (hlast : IsOrdinary last)
    (hlisted : String.ofList (last ++ "id".toList) ∉ wordsEndingInId) (a b : Style) :
    columnKeys (a.spell (front ++ [last] ++ ["id".toList])) =
      columnKeys (b.spell (front ++ [last ++ "id".toList])) := by
  have happart : withoutId? (words (a.spell (front ++ [last] ++ ["id".toList]))) =
      some (front ++ [last]) := by
    rw [words_spell_apart a hfront hlast, withoutId?_append_id]
  have hglued : withoutId? (words (b.spell (front ++ [last ++ "id".toList]))) =
      some (front ++ [last]) := by
    rcases b.words_spell_glued hfront hlast with hwords | hwords
    · rw [hwords, withoutId?_append_glued hlast.isCapitalizable.ne_nil, if_neg hlisted]
    · rw [hwords, withoutId?_append_id]
  refine SortedSet.ext fun k => ?_
  rw [mem_columnKeys_of_withoutId? happart, mem_columnKeys_of_withoutId? hglued]

/-- If the glued word is a listed one, the `id` is not taken off, and the last word is no key. -/
theorem columnKeys_glued_ne (hfront : ∀ w ∈ front, IsOrdinary w) (hlast : IsOrdinary last)
    (hlisted : String.ofList (last ++ "id".toList) ∈ wordsEndingInId) (a b : Style) :
    columnKeys (a.spell (front ++ [last] ++ ["id".toList])) ≠
      columnKeys (b.spell (front ++ [last ++ "id".toList])) := by
  have hordinary : ∀ w ∈ front ++ [last ++ "id".toList], IsOrdinary w := by
    rw [List.forall_mem_append, List.forall_mem_singleton]
    exact ⟨hfront, isOrdinary_of_listed hlisted⟩
  have hwords := b.words_spell_ordinary hordinary
  have hkept : withoutId? (words (b.spell (front ++ [last ++ "id".toList]))) = none := by
    rw [hwords, withoutId?_append_glued hlast.isCapitalizable.ne_nil, if_pos hlisted]
  have hmem : last ∈ columnKeys (a.spell (front ++ [last] ++ ["id".toList])) := by
    rw [mem_columnKeys_of_words (words_spell_apart a hfront hlast)]
    refine ⟨[last], ⟨by simp, List.suffix_append front _⟩, ?_⟩
    rw [List.flatten_singleton]
    exact mem_singularForms.mpr (.inl (singular_of_listed hlisted).symm)
  intro hkeys
  rw [hkeys] at hmem
  have hlong := mem_columnKeys_of_withoutId?_eq_none hkept hmem
  rw [hwords, List.flatten_append, List.flatten_singleton, ← List.append_assoc] at hlong
  -- the whole name has at least the `id` more than the last word
  have hlength := congrArg List.length (eq_of_mem_singularForms_id hlong)
  rw [List.length_append, List.length_append] at hlength
  have htwo : "id".toList.length = 2 := rfl
  omega

end Glued

/-- Every spelling of ordinary words is read as these words and has the same keys. A column has the
same keys with the `id` apart and glued on, unless the glued word is one that ends so by itself. -/
theorem keys_independent_of_style {ws : List Word} (hws : ∀ w ∈ ws, IsOrdinary w) :
    (∀ style : Style, words (style.spell ws) = ws) ∧
    (∀ a b : Style, columnKeys (a.spell ws) = columnKeys (b.spell ws) ∧
      ∀ leads, tableKeys leads (a.spell ws) = tableKeys leads (b.spell ws)) ∧
    ∀ front last, ws = front ++ [last] → ∀ a b : Style,
      (columnKeys (a.spell (ws ++ ["id".toList])) =
          columnKeys (b.spell (front ++ [last ++ "id".toList])) ↔
        String.ofList (last ++ "id".toList) ∉ wordsEndingInId) := by
  have hread : ∀ style : Style, words (style.spell ws) = ws := fun style =>
    style.words_spell_ordinary hws
  refine ⟨hread, fun a b => ?_, fun front last hsplit a b => ?_⟩
  · have hsame : words (a.spell ws) = words (b.spell ws) := (hread a).trans (hread b).symm
    exact ⟨columnKeys_congr hsame, tableKeys_congr hsame⟩
  · subst hsplit
    rw [List.forall_mem_append, List.forall_mem_singleton] at hws
    obtain ⟨hfront, hlast⟩ := hws
    constructor
    · intro hkeys hlisted
      exact columnKeys_glued_ne hfront hlast hlisted a b hkeys
    · intro hlisted
      exact columnKeys_glued hfront hlast hlisted a b

/-- In capitals the `id` is split off `LINE2ID`, where a digit stands before it. -/
theorem keys_independent_of_style_order_line2 :
    (∀ w ∈ ["order".toList, "line2".toList], IsOrdinary w) ∧
    words "orderLine2" = ["order".toList, "line2".toList] ∧
    tableKeys [["order".toList]] "ORDER_LINE2" = tableKeys [["order".toList]] "OrderLine2" ∧
    columnKeys "order-line2-id" = columnKeys "ORDER_LINE2ID" := by
  have hordinary : ∀ w ∈ ["order".toList, "line2".toList], IsOrdinary w := by
    intro w hw
    rcases List.mem_pair.mp hw with rfl | rfl
    · refine ⟨by decide, "order".toList, [], by decide, by decide, ?_, ?_⟩
      · exact List.all_eq_true.mp (by decide)
      · exact List.all_eq_true.mp (by decide)
    · refine ⟨by decide, "line".toList, "2".toList, by decide, by decide, ?_, ?_⟩
      · exact List.all_eq_true.mp (by decide)
      · exact List.all_eq_true.mp (by decide)
  obtain ⟨hread, hsame, hglued⟩ := keys_independent_of_style hordinary
  refine ⟨hordinary, hread .camel, (hsame .screaming .pascal).2 [["order".toList]], ?_⟩
  exact (hglued ["order".toList] "line2".toList rfl .kebab .screaming).mpr (by decide)

end ImpliedKeys.Identifier
