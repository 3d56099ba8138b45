import ImpliedKeys.Proofs.Identifier.Splitting

/-!
# What the words of an identifier hold

The words of an identifier are its letters and digits in lower case, and nothing else. Two that
follow one another are in one word unless something stands between them or they are a hump. The
words can be put together with any separator and are read back.
-/
namespace ImpliedKeys.Identifier

/-- The letters and digits of a text, in lower case. -/
def retained (l : List Char) : List Char := (l.filter Char.isAlphanum).map Char.toLower

/-- The number of the word that holds a letter or digit, which are numbered through all words. -/
def wordNumber : List Word → Nat → Nat
  | [], _ => 0
  | w :: ws, n => if n < w.length then 0 else wordNumber ws (n - w.length) + 1

theorem retained_append (l m : List Char) : retained (l ++ m) = retained l ++ retained m := by
  rw [retained, List.filter_append, List.map_append]
  rfl

theorem retained_cons {c : Char} (hc : c.isAlphanum = true) (rest : List Char) :
    retained (c :: rest) = c.toLower :: retained rest := by
  rw [retained, List.filter_cons_of_pos hc, List.map_cons]
  rfl

/-- Within the word that follows some others all letters have the number of that word. -/
theorem wordNumber_append {w : Word} {i : Nat} (hi : i < w.length) (us vs : List Word) :
    wordNumber (us ++ w :: vs) (us.flatten.length + i) = us.length := by
  induction us with
  | nil =>
    rw [List.nil_append, List.flatten_nil, List.length_nil, Nat.zero_add, wordNumber, if_pos hi]
    rfl
  | cons u us ih =>
    have hpast : ¬ (u :: us).flatten.length + i < u.length := by
      rw [List.flatten_cons, List.length_append]
      omega
    have hrest : (u :: us).flatten.length + i - u.length = us.flatten.length + i := by
      rw [List.flatten_cons, List.length_append]
      omega
    rw [List.cons_append, wordNumber, if_neg hpast, hrest, ih, List.length_cons]

theorem flatten_extendFirst (c : Char) (ws : List Word) :
    (extendFirst c ws).flatten = c :: ws.flatten := by
  cases ws <;> rfl

/-- A letter or digit joins the first word of what follows or is a word of its own, and any other
character leaves the words as they are. -/
theorem wordsOf_cons (c : Char) (rest : List Char) :
    c.isAlphanum = true ∧ wordsOf (c :: rest) = extendFirst c.toLower (wordsOf rest) ∨
    c.isAlphanum = true ∧ wordsOf (c :: rest) = [c.toLower] :: wordsOf rest ∨
    c.isAlphanum = false ∧ wordsOf (c :: rest) = wordsOf rest := by
  by_cases hc : c.isAlphanum = true
  · cases rest with
    | nil => exact .inr (.inl ⟨hc, by simp [wordsOf, hc]⟩)
    | cons d rest =>
      by_cases hd : (d.isAlphanum && !isHump c d) = true
      · exact .inl ⟨hc, by rw [wordsOf, if_pos hc, List.head?_cons]; exact if_pos hd⟩
      · exact .inr (.inl ⟨hc, by rw [wordsOf, if_pos hc, List.head?_cons]; exact if_neg hd⟩)
  · have hc : c.isAlphanum = false := Bool.eq_false_iff.mpr hc
    exact .inr (.inr ⟨hc, wordsOf_separator hc rest⟩)

/-- The words together are the letters and digits. -/
theorem flatten_wordsOf (l : List Char) : (wordsOf l).flatten = retained l := by
  induction l with
  | nil => rfl
  | cons c l ih =>
    rcases wordsOf_cons c l with ⟨hc, hwords⟩ | ⟨hc, hwords⟩ | ⟨hc, hwords⟩
    · rw [hwords, flatten_extendFirst, ih, retained_cons hc]
    · rw [hwords, List.flatten_cons, ih, retained_cons hc]
      rfl
    · rw [hwords, ih, retained, retained, List.filter_cons_of_neg (by simp [hc])]

theorem nil_notMem_wordsOf (l : List Char) : [] ∉ wordsOf l := by
  induction l with
  | nil => exact List.not_mem_nil
  | cons c l ih =>
    rcases wordsOf_cons c l with ⟨-, hwords⟩ | ⟨-, hwords⟩ | ⟨-, hwords⟩
    · rw [hwords]
      cases hl : wordsOf l with
      | nil => simp [extendFirst]
      | cons w ws =>
        rw [hl] at ih
        simpa [extendFirst] using fun hws => ih (List.mem_cons_of_mem w hws)
    · simpa [hwords] using ih
    · rwa [hwords]

theorem isPlain_retained (l : List Char) : IsPlain (retained l) := by
  intro c hc
  obtain ⟨d, hd, rfl⟩ := List.mem_map.mp hc
  have halphanum : d.isAlphanum = true := (List.mem_filter.mp hd).2
  rcases Bool.or_eq_true_iff.mp halphanum with halpha | hdigit
  · exact .inl (by rw [Char.isLower_toLower_eq_isAlpha, halpha])
  · have hsame : d.toLower = d :=
      Char.toLower_eq_of_not_isUpper (by simp [not_isUpper_of_isDigit hdigit])
    exact .inr (by rw [hsame, hdigit])

theorem isPlain_of_mem_wordsOf {l : List Char} {w : Word} (hw : w ∈ wordsOf l) : IsPlain w := by
  intro c hc
  apply isPlain_retained l
  rw [← flatten_wordsOf]
  exact List.mem_flatten.mpr ⟨w, hw, hc⟩

/-- The first word of a text that begins with a letter or digit begins with it, too. -/
theorem exists_wordsOf_eq_cons {c : Char} (hc : c.isAlphanum = true) (rest : List Char) :
    ∃ w ws, wordsOf (c :: rest) = (c.toLower :: w) :: ws := by
  rcases wordsOf_cons c rest with ⟨-, hwords⟩ | ⟨-, hwords⟩ | ⟨hc', -⟩
  · cases hrest : wordsOf rest with
    | nil => exact ⟨[], [], by rw [hwords, hrest]; rfl⟩
    | cons w ws => exact ⟨w, ws, by rw [hwords, hrest]; rfl⟩
  · exact ⟨[], wordsOf rest, hwords⟩
  · rw [hc] at hc'
    cases hc'

/-- What stands before a text may have words of its own and may extend the first word of the text,
and does no more to it. -/
theorem exists_wordsOf_append {text v : List Char} {vs : List Word} (h : wordsOf text = v :: vs)
    (before : List Char) : ∃ us u, wordsOf (before ++ text) = us ++ (u ++ v) :: vs := by
  induction before with
  | nil => exact ⟨[], [], h⟩
  | cons b before ih =>
    obtain ⟨us, u, hbefore⟩ := ih
    rw [List.cons_append]
    rcases wordsOf_cons b (before ++ text) with ⟨-, hwords⟩ | ⟨-, hwords⟩ | ⟨-, hwords⟩
    · rw [hwords, hbefore]
      cases us with
      | nil => exact ⟨[], b.toLower :: u, rfl⟩
      | cons w us => exact ⟨(b.toLower :: w) :: us, u, rfl⟩
    · exact ⟨[b.toLower] :: us, u, by rw [hwords, hbefore]; rfl⟩
    · exact ⟨us, u, by rw [hwords, hbefore]⟩

/-- Behind some text, all of the first word of what follows is in one word, and the next word has the
next number. -/
theorem exists_wordNumber {text v : List Char} {vs : List Word} (h : wordsOf text = v :: vs)
    (before : List Char) : ∃ m,
      (∀ i < v.length,
        wordNumber (wordsOf (before ++ text)) ((retained before).length + i) = m) ∧
      ∀ w ws, w ≠ [] → vs = w :: ws →
        wordNumber (wordsOf (before ++ text)) ((retained before).length + v.length) = m + 1 := by
  obtain ⟨us, u, hall⟩ := exists_wordsOf_append h before
  -- the words that begin before the text hold all that is retained before it
  have hbefore : us.flatten ++ u = retained before := by
    have htext := flatten_wordsOf text
    have htogether := flatten_wordsOf (before ++ text)
    rw [h, List.flatten_cons] at htext
    rw [hall, retained_append, ← htext, List.flatten_append, List.flatten_cons, List.append_assoc,
      ← List.append_assoc] at htogether
    exact List.append_cancel_right htogether
  have hlength : (retained before).length = us.flatten.length + u.length := by
    rw [← hbefore, List.length_append]
  refine ⟨us.length, fun i hi => ?_, fun w ws hw hvs => ?_⟩
  · have hinside : u.length + i < (u ++ v).length := by
      rw [List.length_append]
      omega
    rw [hall, hlength, Nat.add_assoc]
    exact wordNumber_append hinside us vs
  · have hnext := wordNumber_append (List.length_pos_iff.mpr hw) (us ++ [u ++ v]) ws
    rw [hall, hlength, hvs]
    simpa [Nat.add_assoc] using hnext

/-- A word ends before a separator and within a hump. -/
theorem wordsOf_cons_of_cut {c d : Char} {gap : List Char} (hc : c.isAlphanum = true)
    (hgap : ∀ x ∈ gap, x.isAlphanum = false) (hcut : gap ≠ [] ∨ isHump c d = true)
    (after : List Char) :
    wordsOf (c :: (gap ++ d :: after)) = [c.toLower] :: wordsOf (d :: after) := by
  have hend : EndsBefore [c] (gap ++ d :: after) := by
    cases gap with
    | nil =>
      intro _ hlast _ hfirst _
      cases hlast
      cases hfirst
      exact hcut.resolve_left (not_not_intro rfl)
    | cons x gap => exact endsBefore_separator (hgap x (by simp)) [c] _
  have hsingle : wordsOf [c] = [[c.toLower]] := by simp [wordsOf, hc]
  rw [← List.singleton_append, wordsOf_append hend, wordsOf_separators hgap, hsingle]
  rfl

theorem wordsOf_cons_of_joined {c d : Char} (hc : c.isAlphanum = true) (hd : d.isAlphanum = true)
    (hflat : isHump c d = false) (after : List Char) :
    wordsOf (c :: d :: after) = extendFirst c.toLower (wordsOf (d :: after)) := by
  rw [wordsOf, if_pos hc, List.head?_cons]
  exact if_pos (by simp [hd, hflat])

/-- Two letters or digits with nothing retained between them are in different words exactly if
something else stands between them or they are a hump. -/
theorem wordNumber_ne_succ_iff {gap : List Char} {c d : Char} (hc : c.isAlphanum = true)
    (hd : d.isAlphanum = true) (hgap : ∀ x ∈ gap, x.isAlphanum = false)
    (before after : List Char) :
    wordNumber (wordsOf (before ++ c :: (gap ++ d :: after))) (retained before).length ≠
        wordNumber (wordsOf (before ++ c :: (gap ++ d :: after))) ((retained before).length + 1) ↔
      gap ≠ [] ∨ isHump c d = true := by
  obtain ⟨w, ws, hrest⟩ := exists_wordsOf_eq_cons hd after
  by_cases hcut : gap ≠ [] ∨ isHump c d = true
  · have htext := wordsOf_cons_of_cut hc hgap hcut after
    obtain ⟨m, hfirst, hnext⟩ := exists_wordNumber htext before
    have hleft := hfirst 0 (by simp)
    have hright := hnext (d.toLower :: w) ws (by simp) hrest
    rw [Nat.add_zero] at hleft
    rw [List.length_singleton] at hright
    rw [hleft, hright]
    exact iff_of_true (by omega) hcut
  · obtain ⟨hnil, hflat⟩ := not_or.mp hcut
    obtain rfl := not_not.mp hnil
    have htext := wordsOf_cons_of_joined hc hd (Bool.eq_false_iff.mpr hflat) after
    rw [hrest] at htext
    obtain ⟨m, hfirst, -⟩ := exists_wordNumber htext before
    have hleft := hfirst 0 (by simp)
    have hright := hfirst 1 (by simp)
    rw [Nat.add_zero] at hleft
    rw [List.nil_append, hleft, hright]
    exact iff_of_false (not_not_intro rfl) hcut

/-- Words are read back from any text in which separators stand between them. -/
theorem wordsOf_rejoined {sep : List Char} (hne : sep ≠ []) (hsep : ∀ c ∈ sep, c.isAlphanum = false)
    (l : List Char) : wordsOf (sep.intercalate (wordsOf l)) = wordsOf l := by
  rw [wordsOf_intercalate hne hsep]
  refine flatMap_eq_self fun w hw => (isPlain_of_mem_wordsOf hw).wordsOf_eq fun hnil => ?_
  exact nil_notMem_wordsOf l (hnil ▸ hw)

/-- The words of an identifier are its letters and digits in lower case, cut at other characters and
at humps and nowhere else. With separators between them they are read back. -/
theorem words_cut_exactly (identifier : String) :
    (∀ w ∈ words identifier, w ≠ [] ∧ ∀ c ∈ w, c.isLower = true ∨ c.isDigit = true) ∧
    (words identifier).flatten = (identifier.toList.filter Char.isAlphanum).map Char.toLower ∧
    (∀ before c gap d after, identifier.toList = before ++ c :: (gap ++ d :: after) →
      c.isAlphanum = true → d.isAlphanum = true → (∀ x ∈ gap, x.isAlphanum = false) →
      (wordNumber (words identifier) (retained before).length ≠
          wordNumber (words identifier) ((retained before).length + 1) ↔
        gap ≠ [] ∨ (c.isLower = true ∨ c.isDigit = true) ∧ d.isUpper = true)) ∧
    ∀ sep : String, sep ≠ "" → (∀ c ∈ sep.toList, c.isAlphanum = false) →
      words (sep.intercalate ((words identifier).map String.ofList)) = words identifier := by
  refine ⟨fun w hw => ⟨fun hnil => ?_, isPlain_of_mem_wordsOf hw⟩, flatten_wordsOf _, ?_, ?_⟩
  · exact nil_notMem_wordsOf identifier.toList (hnil ▸ hw)
  · intro before c gap d after htext hc hd hgap
    have hcut := wordNumber_ne_succ_iff hc hd hgap before after
    rw [← htext] at hcut
    exact hcut.trans (by simp [isHump])
  · intro sep hne hsep
    have hjoined : (sep.intercalate ((words identifier).map String.ofList)).toList =
        sep.toList.intercalate (words identifier) := by
      rw [String.toList_intercalate, List.map_map]
      simp [Function.comp_def]
    rw [words, hjoined]
    exact wordsOf_rejoined (by simpa using hne) hsep identifier.toList

/-- One cut is at the hump before the `L` and one at the two underscores, and an accented letter
separates words like any other character. -/
theorem words_cut_exactly_order_line2 :
    "orderLine2__id".toList = "orde".toList ++ 'r' :: ([] ++ 'L' :: "ine2__id".toList) ∧
    wordNumber (words "orderLine2__id") 4 ≠ wordNumber (words "orderLine2__id") 5 ∧
    wordNumber (words "orderLine2__id") 5 = wordNumber (words "orderLine2__id") 6 ∧
    wordNumber (words "orderLine2__id") 9 ≠ wordNumber (words "orderLine2__id") 10 ∧
    words ("é".intercalate ((words "orderLine2__id").map String.ofList)) =
      words "orderLine2__id" := by
  obtain ⟨-, -, hcut, hrejoin⟩ := words_cut_exactly "orderLine2__id"
  have hhump := hcut "orde".toList 'r' [] 'L' "ine2__id".toList (by decide) (by decide) (by decide)
    (by simp)
  have hinside := hcut "order".toList 'L' [] 'i' "ne2__id".toList (by decide) (by decide) (by decide)
    (by simp)
  have hgap := hcut "orderLine".toList '2' ['_', '_'] 'i' ['d'] (by decide) (by decide) (by decide)
    (by simp)
  rw [(by decide : (retained "orde".toList).length = 4)] at hhump
  rw [(by decide : (retained "order".toList).length = 5)] at hinside
  rw [(by decide : (retained "orderLine".toList).length = 9)] at hgap
  refine ⟨by decide, hhump.mpr (by decide), ?_, hgap.mpr (by decide), ?_⟩
  · exact not_not.mp (mt hinside.mp (by decide))
  · exact hrejoin "é" (by decide) (by simp)

end ImpliedKeys.Identifier
