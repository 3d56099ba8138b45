import Mathlib
import ImpliedKeys.Identifier.MatchKey

/-!
# Where words end

Letters and digits without a hump between two of them are one word. Where no word goes on from one
part of a text to the next, the words of the parts are the words of the whole, whether a separator
stands between the parts or each begins with a hump.
-/
namespace ImpliedKeys.Identifier

/-- Letters and digits that no hump parts. -/
structure IsRun (l : List Char) : Prop where
  ne_nil : l ≠ []
  alphanum : ∀ c ∈ l, c.isAlphanum = true
  flat : l.IsChain fun a b => isHump a b = false

/-- No word goes on from the end of a text to what follows it. -/
def EndsBefore (l rest : List Char) : Prop :=
  ∀ c ∈ l.getLast?, ∀ d ∈ rest.head?, d.isAlphanum = true → isHump c d = true

theorem endsBefore_nil (l : List Char) : EndsBefore l [] := by
  intro c _ d hd
  cases hd

theorem endsBefore_separator {c : Char} (hc : c.isAlphanum = false) (l rest : List Char) :
    EndsBefore l (c :: rest) := by
  intro _ _ d hd halphanum
  cases hd
  rw [hc] at halphanum
  cases halphanum

theorem EndsBefore.append {l m : List Char} (h : EndsBefore l m) (hne : m ≠ []) (rest : List Char) :
    EndsBefore l (m ++ rest) := by
  intro c hc d hd
  rw [List.head?_append_of_ne_nil m hne] at hd
  exact h c hc d hd

theorem wordsOf_separator {c : Char} (hc : c.isAlphanum = false) (rest : List Char) :
    wordsOf (c :: rest) = wordsOf rest := by
  rw [wordsOf, hc]
  rfl

theorem wordsOf_ne_nil {c : Char} (hc : c.isAlphanum = true) (rest : List Char) :
    wordsOf (c :: rest) ≠ [] := by
  rw [wordsOf, if_pos hc]
  split
  · split
    · cases wordsOf rest <;> simp [extendFirst]
    · simp
  · simp

theorem extendFirst_append {ws : List Word} (h : ws ≠ []) (c : Char) (vs : List Word) :
    extendFirst c (ws ++ vs) = extendFirst c ws ++ vs := by
  cases ws with
  | nil => exact absurd rfl h
  | cons w ws => rfl

/-- The words of a text in two parts, if no word goes on from the one to the other. -/
theorem wordsOf_append {l rest : List Char} (hend : EndsBefore l rest) :
    wordsOf (l ++ rest) = wordsOf l ++ wordsOf rest := by
  induction l with
  | nil => rfl
  | cons c l ih =>
    cases l with
    | nil =>
      cases rest with
      | nil => simp [wordsOf]
      | cons d rest =>
        have hcut : (d.isAlphanum && !isHump c d) = false := by
          have hhump := hend c rfl d rfl
          cases hd : d.isAlphanum <;> simp_all
        by_cases hc : c.isAlphanum = true <;> simp [wordsOf, hc, hcut]
    | cons d l =>
      have hrest : wordsOf (d :: l ++ rest) = wordsOf (d :: l) ++ wordsOf rest :=
        ih fun c' hc' => hend c' hc'
      rw [List.cons_append, wordsOf, hrest, wordsOf.eq_2 c (d :: l)]
      by_cases hc : c.isAlphanum = true
      · by_cases hd : (d.isAlphanum && !isHump c d) = true
        · have hfirst := wordsOf_ne_nil (Bool.and_eq_true_iff.mp hd).1 l
          simp [hc, hd, extendFirst_append hfirst]
        · simp [hc, hd]
      · simp [hc]

/-- Parts that are set off from one another by humps have their words one after the other. -/
theorem wordsOf_flatten {parts : List (List Char)} (hne : ∀ l ∈ parts, l ≠ [])
    (hend : parts.IsChain EndsBefore) : wordsOf parts.flatten = parts.flatMap wordsOf := by
  induction parts with
  | nil => rfl
  | cons l parts ih =>
    have hne' : ∀ m ∈ parts, m ≠ [] := fun m hm => hne m (List.mem_cons_of_mem l hm)
    obtain ⟨hnext, hend⟩ := List.isChain_cons.mp hend
    have hl : EndsBefore l parts.flatten := by
      cases parts with
      | nil => exact endsBefore_nil l
      | cons m parts => exact (hnext m rfl).append (hne' m (by simp)) parts.flatten
    rw [List.flatten_cons, wordsOf_append hl, ih hne' hend, List.flatMap_cons]

theorem wordsOf_separators {sep : List Char} (hsep : ∀ c ∈ sep, c.isAlphanum = false)
    (rest : List Char) : wordsOf (sep ++ rest) = wordsOf rest := by
  induction sep with
  | nil => rfl
  | cons c sep ih =>
    rw [List.cons_append, wordsOf_separator (hsep c (by simp)),
      ih fun d hd => hsep d (List.mem_cons_of_mem c hd)]

/-- Parts with separators between them have their words one after the other. -/
theorem wordsOf_intercalate {sep : List Char} (hne : sep ≠ [])
    (hsep : ∀ c ∈ sep, c.isAlphanum = false) (parts : List (List Char)) :
    wordsOf (sep.intercalate parts) = parts.flatMap wordsOf := by
  induction parts with
  | nil => rfl
  | cons l parts ih =>
    cases parts with
    | nil => rw [List.intercalate_singleton, List.flatMap_singleton]
    | cons m parts =>
      have hend : EndsBefore l (sep ++ sep.intercalate (m :: parts)) := by
        obtain ⟨c, sep, rfl⟩ := List.exists_cons_of_ne_nil hne
        exact endsBefore_separator (hsep c (by simp)) l _
      rw [List.intercalate_cons_cons, List.append_assoc, wordsOf_append hend,
        wordsOf_separators hsep, ih]
      rfl

theorem flatMap_eq_self {ws : List Word} {f : Word → List Word} (h : ∀ w ∈ ws, f w = [w]) :
    ws.flatMap f = ws := by
  have hsingle : ws.flatMap f = ws.flatMap fun w => [w] := List.flatMap_congr h
  rw [hsingle, List.flatMap_singleton']

/-- A run is one word. -/
theorem wordsOf_run {l : List Char} (hl : IsRun l) : wordsOf l = [l.map Char.toLower] := by
  obtain ⟨hne, halphanum, hflat⟩ := hl
  induction l with
  | nil => exact absurd rfl hne
  | cons c l ih =>
    have hc : c.isAlphanum = true := halphanum c (by simp)
    cases l with
    | nil => simp [wordsOf, hc]
    | cons d l =>
      have hd : d.isAlphanum = true := halphanum d (by simp)
      obtain ⟨hhump, hflat⟩ := List.isChain_cons_cons.mp hflat
      have hrest := ih (by simp) (fun c' hc' => halphanum c' (List.mem_cons_of_mem c hc')) hflat
      rw [wordsOf, hrest]
      simp [hc, hd, hhump, extendFirst]

/-- Lower-case letters and digits only. -/
def IsPlain (w : List Char) : Prop := ∀ c ∈ w, c.isLower = true ∨ c.isDigit = true

instance (w : List Char) : Decidable (IsPlain w) :=
  decidable_of_iff ((w.all fun c => c.isLower || c.isDigit) = true) (by simp [IsPlain])

theorem not_isAlpha_of_isDigit {c : Char} (h : c.isDigit = true) : c.isAlpha = false := by
  simp only [Char.isDigit, Char.isAlpha, Char.isUpper, Char.isLower, Bool.and_eq_true,
    decide_eq_true_eq, ge_iff_le, UInt32.le_iff_toNat_le, Bool.or_eq_false_iff,
    Bool.and_eq_false_iff, decide_eq_false_iff_not] at h ⊢
  simp at h ⊢
  omega

theorem not_isUpper_of_isDigit {c : Char} (h : c.isDigit = true) : c.isUpper = false :=
  (Bool.or_eq_false_iff.mp (not_isAlpha_of_isDigit h)).1

namespace IsPlain

variable {w : List Char}

theorem append {v : List Char} (h : IsPlain w) (hv : IsPlain v) : IsPlain (w ++ v) := by
  intro c hc
  exact (List.mem_append.mp hc).elim (h c) (hv c)

theorem of_append_left {v : List Char} (h : IsPlain (w ++ v)) : IsPlain w :=
  fun c hc => h c (List.mem_append_left v hc)

theorem not_isUpper (h : IsPlain w) {c : Char} (hc : c ∈ w) : c.isUpper = false := by
  rcases h c hc with hlower | hdigit
  · exact Bool.eq_false_iff.mpr (Char.not_isUpper_of_isLower hlower)
  · exact not_isUpper_of_isDigit hdigit

theorem isAlphanum (h : IsPlain w) {c : Char} (hc : c ∈ w) : c.isAlphanum = true := by
  rcases h c hc with hlower | hdigit
  · simp [Char.isAlphanum, Char.isAlpha, hlower]
  · simp [Char.isAlphanum, hdigit]

theorem map_toLower (h : IsPlain w) : w.map Char.toLower = w := by
  have hsame : ∀ c ∈ w, c.toLower = id c := by
    intro c hc
    exact Char.toLower_eq_of_not_isUpper (by simp [h.not_isUpper hc])
  rw [List.map_congr_left hsame, List.map_id]

/-- A plain word is a run, also if its first letter is replaced by another. -/
theorem isRun_cons (h : IsPlain w) {c : Char} (hc : c.isAlphanum = true) : IsRun (c :: w) where
  ne_nil := List.cons_ne_nil c w
  alphanum d hd := by
    rcases List.mem_cons.mp hd with rfl | hd
    · exact hc
    · exact h.isAlphanum hd
  flat := by
    have hflat {a b : Char} (hb : b ∈ w) : isHump a b = false := by
      simp [isHump, h.not_isUpper hb]
    refine (List.pairwise_cons.mpr ⟨fun b hb => hflat hb, ?_⟩).isChain
    exact List.pairwise_of_forall_mem_list fun a _ b hb => hflat hb

theorem isRun (h : IsPlain w) (hne : w ≠ []) : IsRun w := by
  cases w with
  | nil => exact absurd rfl hne
  | cons c w =>
    exact isRun_cons (fun d hd => h d (List.mem_cons_of_mem c hd)) (h.isAlphanum (by simp))

theorem wordsOf_eq (h : IsPlain w) (hne : w ≠ []) : wordsOf w = [w] := by
  rw [wordsOf_run (h.isRun hne), h.map_toLower]

end IsPlain

end ImpliedKeys.Identifier
