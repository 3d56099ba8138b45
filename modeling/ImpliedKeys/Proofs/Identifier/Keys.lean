import ImpliedKeys.Proofs.Identifier.Segmentation
import ImpliedKeys.Proofs.Identifier.Singular

/-!
# What match keys are made of

Columns and tables come to their keys in the same way: the keys are singulars of tails of a word list,
and those of the whole list are among them. A column is matched by its words without the `id` that
marks a reference, and a table by all its words. So there are no keys only if there are no words, and
since no singular is shortened to nothing, every key has a letter or digit and holds nothing else.
-/
namespace ImpliedKeys.Identifier

variable {w v k : Word} {ws rest : List Word} {keys : SortedSet MatchKey}

/-- Letters in lower case and digits, at least one. -/
structure IsWord (w : Word) : Prop where
  ne_nil : w ≠ []
  plain : IsPlain w

namespace IsWord

theorem append_plain (h : IsWord w) (hv : IsPlain v) : IsWord (w ++ v) where
  ne_nil := List.append_ne_nil_of_left_ne_nil h.ne_nil v
  plain := h.plain.append hv

theorem plain_append (hv : IsPlain v) (h : IsWord w) : IsWord (v ++ w) where
  ne_nil := List.append_ne_nil_of_right_ne_nil v h.ne_nil
  plain := hv.append h.plain

end IsWord

/-- Whichever way a word comes to its singular, something is left of it. -/
theorem Singularizes.isWord (h : Singularizes w v) (hw : IsWord w) : IsWord v := by
  obtain ⟨hne, hplain⟩ := hw
  cases h with
  | irregular stem hlisted =>
    have hall : ∀ e ∈ irregularPlurals, e.2.toList ≠ [] ∧ IsPlain e.2.toList := by decide
    obtain ⟨hsingle, hletters⟩ := hall _ hlisted
    exact .plain_append hplain.of_append_left ⟨hsingle, hletters⟩
  | kept => exact ⟨hne, hplain⟩
  | ies stem => exact .plain_append hplain.of_append_left ⟨by simp, by decide⟩
  | es hends =>
    refine ⟨?_, hplain.of_append_left.of_append_left⟩
    rintro rfl
    exact absurd hends (by decide)
  | s hstem => exact ⟨hstem, hplain.of_append_left⟩

/-- The singulars of a word are words. -/
theorem IsWord.of_mem_singularForms (hw : IsWord w) (hk : k ∈ singularForms w) : IsWord k := by
  rcases mem_singularForms.mp hk with rfl | ⟨-, hies, rfl⟩
  · exact (singularizes w).isWord hw
  · obtain ⟨v, rfl, hdrop, hie⟩ := exists_ieForm hies
    rw [hdrop]
    refine ⟨?_, hw.plain.of_append_left⟩
    rintro rfl
    exact absurd hie (by decide)

theorem isWord_of_mem_words {name : String} (hw : w ∈ words name) : IsWord w where
  ne_nil := by
    rintro rfl
    exact nil_notMem_wordsOf name.toList hw
  plain := isPlain_of_mem_wordsOf hw

theorem isWord_flatten (hne : ws ≠ []) (h : ∀ w ∈ ws, IsWord w) : IsWord ws.flatten := by
  cases ws with
  | nil => exact absurd rfl hne
  | cons w ws =>
    refine (h w (by simp)).append_plain fun c hc => ?_
    obtain ⟨v, hv, hcv⟩ := List.mem_flatten.mp hc
    exact (h v (List.mem_cons_of_mem w hv)).plain c hcv

/-- Only what has no letter or digit has no words. -/
theorem words_eq_nil_iff {name : String} :
    words name = [] ↔ ∀ c ∈ name.toList, c.isAlphanum = false := by
  have hretained : (words name).flatten = [] ↔ ∀ c ∈ name.toList, c.isAlphanum = false := by
    rw [words, flatten_wordsOf, retained, List.map_eq_nil_iff, List.filter_eq_nil_iff]
    simp only [Bool.not_eq_true]
  rw [← hretained]
  constructor
  · intro hnil
    rw [hnil, List.flatten_nil]
  · intro hflat
    by_contra hne
    exact (isWord_flatten hne fun w => isWord_of_mem_words).ne_nil hflat

/-- What is taken off a reference is its last word or the end of it. -/
theorem eq_of_withoutId? (h : withoutId? ws = some rest) :
    ws = rest ++ ["id".toList] ∨ ∃ front last, last ≠ [] ∧
      ws = front ++ [last ++ "id".toList] ∧ rest = front ++ [last] := by
  rcases List.eq_nil_or_concat' ws with rfl | ⟨front, last, rfl⟩
  · cases h
  · unfold withoutId? at h
    rw [List.getLast?_concat, List.dropLast_concat] at h
    change (if _ then _ else if _ then _ else _) = _ at h
    split at h
    · next hid =>
      cases h
      exact .inl (by rw [hid])
    · split at h
      · next hends =>
        simp only [Bool.and_eq_true, decide_eq_true_eq, endsWith_iff] at hends
        obtain ⟨⟨hlong, stem, rfl⟩, -⟩ := hends
        have hdrop : dropLetters 2 (stem ++ "id".toList) = stem := dropLetters_append stem _
        rw [hdrop] at h
        cases h
        refine .inr ⟨front, stem, ?_, rfl, rfl⟩
        rintro rfl
        exact absurd hlong (by decide)
      · cases h

/-- The words by which a column is matched: those without the `id` that marks a reference. -/
def matchedWords (ws : List Word) : List Word := (withoutId? ws).getD ws

theorem isWord_of_mem_matchedWords (h : ∀ w ∈ ws, IsWord w) : ∀ w ∈ matchedWords ws, IsWord w := by
  unfold matchedWords
  cases hid : withoutId? ws with
  | none => exact h
  | some rest =>
    rw [Option.getD_some]
    rcases eq_of_withoutId? hid with rfl | ⟨front, last, hne, rfl, rfl⟩
    · exact (List.forall_mem_append.mp h).1
    · rw [List.forall_mem_append, List.forall_mem_singleton] at h ⊢
      exact ⟨h.1, hne, h.2.plain.of_append_left⟩

theorem matchedWords_eq_nil_iff : matchedWords ws = [] ↔ ws = [] ∨ ws = ["id".toList] := by
  unfold matchedWords
  cases hid : withoutId? ws with
  | none =>
    rw [Option.getD_none]
    refine (or_iff_left ?_).symm
    rintro rfl
    cases hid
  | some rest =>
    rw [Option.getD_some]
    rcases eq_of_withoutId? hid with rfl | ⟨front, last, hne, rfl, rfl⟩
    · simp
    · have hother : front ++ [last ++ "id".toList] ≠ [] ++ ["id".toList] := by
        intro heq
        have hlast := List.singleton_inj.mp (List.append_inj' heq rfl).2
        exact hne (List.append_left_eq_self.mp hlast)
      exact iff_of_false (by simp) (not_or.mpr ⟨by simp, hother⟩)

/-- The keys are singulars of tails of a word list, those of the whole list among them. -/
structure KeysOf (ws : List Word) (keys : SortedSet MatchKey) : Prop where
  exists_tail : ∀ k ∈ keys, ∃ tail, tail ≠ [] ∧ tail <:+ ws ∧ k ∈ singularForms tail.flatten
  whole : ws ≠ [] → ∀ k ∈ singularForms ws.flatten, k ∈ keys

theorem keysOf_columnKeys (name : String) :
    KeysOf (matchedWords (words name)) (columnKeys name) := by
  unfold matchedWords
  cases hid : withoutId? (words name) with
  | some rest =>
    rw [Option.getD_some]
    refine ⟨fun k hk => ?_, fun hne k hk => ?_⟩
    · obtain ⟨tail, ⟨hne, hsuffix⟩, hk⟩ := (mem_columnKeys_of_withoutId? hid).mp hk
      exact ⟨tail, hne, hsuffix, hk⟩
    · exact (mem_columnKeys_of_withoutId? hid).mpr ⟨rest, ⟨hne, List.suffix_refl rest⟩, hk⟩
  | none =>
    rw [columnKeys_of_withoutId?_eq_none hid, Option.getD_none]
    split
    · next hnil =>
      exact ⟨fun k hk => absurd hk SortedSet.not_mem_empty, fun hne => absurd hnil hne⟩
    · next hne =>
      refine ⟨fun k hk => ?_, fun _ k hk => SortedSet.mem_ofList.mpr hk⟩
      exact ⟨words name, hne, List.suffix_refl _, SortedSet.mem_ofList.mp hk⟩

theorem keysOf_tableKeys (leads : List (List Word)) (name : String) :
    KeysOf (words name) (tableKeys leads name) where
  exists_tail k hk := by
    obtain ⟨hne, hwhole | ⟨lead, -, rest, hafter, hrest⟩⟩ := mem_tableKeys.mp hk
    · exact ⟨words name, hne, List.suffix_refl _, hwhole⟩
    · obtain ⟨hwords, hrestne⟩ := afterLead?_eq_some_iff.mp hafter
      exact ⟨rest, hrestne, ⟨lead, hwords⟩, hrest⟩
  whole hne k hk := mem_tableKeys.mpr ⟨hne, .inl hk⟩

namespace KeysOf

theorem eq_empty_iff (h : KeysOf ws keys) : keys = .empty ↔ ws = [] := by
  constructor
  · rintro rfl
    by_contra hne
    exact SortedSet.not_mem_empty (h.whole hne _ (singular_mem_singularForms ws.flatten))
  · rintro rfl
    refine SortedSet.ext fun k => iff_of_false (fun hk => ?_) SortedSet.not_mem_empty
    obtain ⟨tail, hne, hsuffix, -⟩ := h.exists_tail k hk
    exact hne (List.suffix_nil.mp hsuffix)

theorem isWord (h : KeysOf ws keys) (hws : ∀ w ∈ ws, IsWord w) (hk : k ∈ keys) : IsWord k := by
  obtain ⟨tail, hne, hsuffix, hk⟩ := h.exists_tail k hk
  exact (isWord_flatten hne fun w hw => hws w (hsuffix.subset hw)).of_mem_singularForms hk

end KeysOf

theorem isWord_of_mem_columnKeys {name : String} (hk : k ∈ columnKeys name) : IsWord k :=
  (keysOf_columnKeys name).isWord (isWord_of_mem_matchedWords fun _ => isWord_of_mem_words) hk

theorem isWord_of_mem_tableKeys {leads : List (List Word)} {name : String}
    (hk : k ∈ tableKeys leads name) : IsWord k :=
  (keysOf_tableKeys leads name).isWord (fun _ => isWord_of_mem_words) hk

theorem columnKeys_eq_empty_iff {name : String} : columnKeys name = .empty ↔
    (∀ c ∈ name.toList, c.isAlphanum = false) ∨ words name = ["id".toList] := by
  rw [(keysOf_columnKeys name).eq_empty_iff, matchedWords_eq_nil_iff, words_eq_nil_iff]

theorem tableKeys_eq_empty_iff {leads : List (List Word)} {name : String} :
    tableKeys leads name = .empty ↔ ∀ c ∈ name.toList, c.isAlphanum = false := by
  rw [(keysOf_tableKeys leads name).eq_empty_iff, words_eq_nil_iff]

end ImpliedKeys.Identifier
