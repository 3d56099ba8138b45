import Mathlib.Data.Finset.Dedup
import ImpliedKeys.Analysis.Findings

/-!
# Findings in canonical form

What a key says is its name and the set of its pairs. Findings are made of keys that come in any order,
each with its pairs in the order in which they were added, and only what the keys say goes into them:
they are the one listing of it that is ordered by name and then by pairs, with the pairs of each key
strictly increasing. Keys that say the same stay apart, and so do keys of one name that say different
things.
-/
namespace ImpliedKeys

/-- Any two elements are in one order or the other, and are found equal only if they are the same. -/
structure ComparesTotally (α : Type) [Ord α] : Prop where
  swap : ∀ a b : α, compare b a = (compare a b).swap
  total : ∀ a b : α, (compare a b).isLE ∨ (compare b a).isLE
  trans : ∀ a b c : α, (compare a b).isLE → (compare b c).isLE → (compare a c).isLE
  eq_iff : ∀ a b : α, compare a b = .eq ↔ a = b

theorem comparesTotally {α : Type} [Ord α] [Std.TransOrd α] [Std.LawfulEqOrd α] :
    ComparesTotally α where
  swap _ _ := Std.OrientedCmp.eq_swap
  total := isLE_or_isLE compare
  trans _ _ _ := Std.TransOrd.isLE_trans
  eq_iff _ _ := Std.compare_eq_iff_eq

namespace ImpliedKey

theorem isLE_iff {j k : ImpliedKey} : (compare j k).isLE ↔
    j.name < k.name ∨ j.name = k.name ∧ (compare j.pairs k.pairs).isLE := by
  have hthen : compare j k = (compare j.name k.name).then (compare j.pairs k.pairs) := rfl
  have hlt : compare j.name k.name = .lt ↔ j.name < k.name := compareOfLessAndEq_eq_lt
  rw [hthen, Ordering.isLE_then_iff_or, hlt, Std.compare_eq_iff_eq]

/-- What a key says: its name and the set of its pairs. -/
def content (k : ImpliedKey) : String × Finset Association := (k.name, k.pairs.toFinset)

theorem content_eq_iff {j k : ImpliedKey} :
    j.content = k.content ↔ j.name = k.name ∧ ∀ a, a ∈ j.pairs ↔ a ∈ k.pairs := by
  simp only [content, Prod.mk.injEq, Finset.ext_iff, List.mem_toFinset]

theorem content_canonical (k : ImpliedKey) : k.canonical.content = k.content :=
  content_eq_iff.mpr ⟨k.name_canonical, fun _ => mem_pairs_canonical⟩

theorem canonical_eq_self {k : ImpliedKey} (h : Increasing k.pairs) : k.canonical = k := by
  have hpairs : k.canonical.pairs = k.pairs :=
    Increasing.ext k.increasing_pairs_canonical h fun _ => mem_pairs_canonical
  cases k
  simp_all [canonical]

/-- The canonical key that says something. -/
noncomputable def ofContent (said : String × Finset Association) : ImpliedKey :=
  canonical ⟨said.1, said.2.toList⟩

theorem ofContent_content (k : ImpliedKey) : ofContent k.content = k.canonical := by
  have hpairs : (ofContent k.content).pairs = k.canonical.pairs := by
    refine Increasing.ext (increasing_pairs_canonical _) k.increasing_pairs_canonical fun a => ?_
    rw [ofContent, mem_pairs_canonical, mem_pairs_canonical]
    simp [content]
  exact congrArg (mk k.name) hpairs

/-- Keys that say the same, in whatever order, have the same canonical keys. -/
theorem canonical_perm_of_content_perm {ks js : List ImpliedKey}
    (h : (ks.map content).Perm (js.map content)) :
    (ks.map canonical).Perm (js.map canonical) := by
  have hcanonical : canonical = ofContent ∘ content := funext fun k => (ofContent_content k).symm
  rw [hcanonical, ← List.map_map, ← List.map_map]
  exact h.map ofContent

/-- The key that is made of a name by adding pairs one after the other. -/
def ofAdded (made : String × List Association) : ImpliedKey := made.2.foldl add { name := made.1 }

theorem name_foldl_add (added : List Association) (k : ImpliedKey) :
    (added.foldl add k).name = k.name := by
  induction added generalizing k with
  | nil => rfl
  | cons a added ih => rw [List.foldl_cons, ih, name_add]

theorem mem_pairs_foldl_add {added : List Association} {k : ImpliedKey} {b : Association} :
    b ∈ (added.foldl add k).pairs ↔ b ∈ k.pairs ∨ b ∈ added := by
  induction added generalizing k with
  | nil => simp
  | cons a added ih => rw [List.foldl_cons, ih, mem_pairs_add, List.mem_cons, or_assoc]

theorem content_ofAdded_eq_iff {made again : String × List Association} :
    (ofAdded made).content = (ofAdded again).content ↔
      made.1 = again.1 ∧ ∀ a, a ∈ made.2 ↔ a ∈ again.2 := by
  simp [content_eq_iff, ofAdded, name_foldl_add, mem_pairs_foldl_add]

end ImpliedKey

namespace Findings

open ImpliedKey (content ofAdded)

/-- The findings list what given keys say, by name and then by pairs, with the pairs of each key
strictly increasing. -/
structure Lists (ks : List ImpliedKey) (found : Findings) : Prop where
  ordered : found.keys.Pairwise fun j k =>
    j.name < k.name ∨ j.name = k.name ∧ (compare j.pairs k.pairs).isLE
  increasing_pairs : ∀ k ∈ found.keys, Increasing k.pairs
  contents : (found.keys.map content).Perm (ks.map content)

theorem lists_ofUnordered (ks : List ImpliedKey) : (ofUnordered ks).Lists ks where
  ordered := (pairwise_keys_ofUnordered ks).imp fun h => ImpliedKey.isLE_iff.mp h
  increasing_pairs k hk := by
    obtain ⟨j, -, rfl⟩ := mem_keys_ofUnordered.mp hk
    exact j.increasing_pairs_canonical
  contents := by
    have hperm := (keys_ofUnordered_perm ks).map content
    have hkept : (ks.map (·.canonical)).map content = ks.map content := by
      rw [List.map_map]
      exact List.map_congr_left fun k _ => k.content_canonical
    rwa [hkept] at hperm

/-- What keys say is listed in one way only. -/
theorem Lists.eq_ofUnordered {ks : List ImpliedKey} {found : Findings} (h : found.Lists ks) :
    found = ofUnordered ks := by
  have hself : found.keys.map ImpliedKey.canonical = found.keys := by
    have hsame : ∀ k ∈ found.keys, k.canonical = id k := fun k hk =>
      ImpliedKey.canonical_eq_self (h.increasing_pairs k hk)
    rw [List.map_congr_left hsame, List.map_id]
  have hperm : found.keys.Perm (ks.map (·.canonical)) := by
    have hcanonical := ImpliedKey.canonical_perm_of_content_perm h.contents
    rwa [hself] at hcanonical
  have hordered : found.keys.Pairwise fun j k => (compare j k).isLE :=
    h.ordered.imp fun h => ImpliedKey.isLE_iff.mpr h
  exact (ofUnordered_eq_of_perm hperm hordered).symm

theorem eq_ofUnordered_iff {ks : List ImpliedKey} {found : Findings} :
    found = ofUnordered ks ↔ found.Lists ks :=
  ⟨fun h => h ▸ lists_ofUnordered ks, Lists.eq_ofUnordered⟩

theorem ofUnordered_eq_iff {ks js : List ImpliedKey} :
    ofUnordered ks = ofUnordered js ↔ (ks.map content).Perm (js.map content) := by
  have hks := lists_ofUnordered ks
  constructor
  · intro hfound
    rw [hfound] at hks
    exact hks.contents.symm.trans (lists_ofUnordered js).contents
  · intro hperm
    exact Lists.eq_ofUnordered ⟨hks.ordered, hks.increasing_pairs, hks.contents.trans hperm⟩

/-- The same keys are made again in any order, and the same pairs added to each in any order and any
number of times. -/
def MadeAgain (made again : List (String × List Association)) : Prop :=
  ∃ reordered, made.Perm reordered ∧
    List.Forall₂ (fun m n => m.1 = n.1 ∧ ∀ a, a ∈ m.2 ↔ a ∈ n.2) reordered again

theorem map_content_ofAdded_eq {made again : List (String × List Association)}
    (h : List.Forall₂ (fun m n => m.1 = n.1 ∧ ∀ a, a ∈ m.2 ↔ a ∈ n.2) made again) :
    (made.map ofAdded).map content = (again.map ofAdded).map content := by
  induction h with
  | nil => rfl
  | cons hmade _ ih =>
    simp only [List.map_cons, ih, ImpliedKey.content_ofAdded_eq_iff.mpr hmade]

theorem MadeAgain.contents_perm {made again : List (String × List Association)}
    (h : MadeAgain made again) :
    ((made.map ofAdded).map content).Perm ((again.map ofAdded).map content) := by
  obtain ⟨reordered, hperm, hsame⟩ := h
  rw [← map_content_ofAdded_eq hsame]
  exact (hperm.map ofAdded).map content

/-- Pairs and keys are compared totally. The findings made of some keys are the one ordered listing of
what the keys say, so they are the same exactly for keys that say the same, and do not depend on the
order of the keys nor on the order and number of the additions that made each of them. -/
theorem ofUnordered_canonical :
    ComparesTotally Association ∧ ComparesTotally ImpliedKey ∧
    (∀ ks found, found = ofUnordered ks ↔ found.Lists ks) ∧
    (∀ ks js, ofUnordered ks = ofUnordered js ↔ (ks.map content).Perm (js.map content)) ∧
    ∀ made again, MadeAgain made again →
      ofUnordered (made.map ofAdded) = ofUnordered (again.map ofAdded) :=
  ⟨comparesTotally, comparesTotally, fun _ _ => eq_ofUnordered_iff, fun _ _ => ofUnordered_eq_iff,
    fun _ _ h => ofUnordered_eq_iff.mpr h.contents_perm⟩

/-- Two keys of one name and one of another, which comes after them. -/
def madeKeys : List (String × List Association) :=
  [("fk_orders_item_id_items", [⟨⟨"items", "id"⟩, ⟨"orders", "item_id"⟩⟩]),
    ("fk_lines", [⟨⟨"orders", "id"⟩, ⟨"lines", "order_id"⟩⟩]),
    ("fk_lines", [⟨⟨"items", "id"⟩, ⟨"lines", "item_id"⟩⟩,
      ⟨⟨"items", "code"⟩, ⟨"lines", "item_code"⟩⟩])]

/-- The same keys in another order, with the pairs of one turned round and one of them added twice. -/
def madeKeysAgain : List (String × List Association) :=
  [("fk_lines", [⟨⟨"orders", "id"⟩, ⟨"lines", "order_id"⟩⟩]),
    ("fk_lines", [⟨⟨"items", "code"⟩, ⟨"lines", "item_code"⟩⟩,
      ⟨⟨"items", "id"⟩, ⟨"lines", "item_id"⟩⟩, ⟨⟨"items", "code"⟩, ⟨"lines", "item_code"⟩⟩]),
    ("fk_orders_item_id_items", [⟨⟨"items", "id"⟩, ⟨"orders", "item_id"⟩⟩])]

/-- The keys of one name are put in the order of their pairs. -/
theorem ofUnordered_canonical_lines :
    MadeAgain madeKeys madeKeysAgain ∧
    ofUnordered (madeKeys.map ofAdded) = ofUnordered (madeKeysAgain.map ofAdded) ∧
    (ofUnordered (madeKeys.map ofAdded)).keys =
      [⟨"fk_lines", [⟨⟨"items", "code"⟩, ⟨"lines", "item_code"⟩⟩,
          ⟨⟨"items", "id"⟩, ⟨"lines", "item_id"⟩⟩]⟩,
        ⟨"fk_lines", [⟨⟨"orders", "id"⟩, ⟨"lines", "order_id"⟩⟩]⟩,
        ⟨"fk_orders_item_id_items", [⟨⟨"items", "id"⟩, ⟨"orders", "item_id"⟩⟩]⟩] := by
  have hagain : MadeAgain madeKeys madeKeysAgain := by
    refine ⟨madeKeys.rotate 1, by decide +kernel, ?_⟩
    refine .cons ⟨rfl, fun a => Iff.rfl⟩ (.cons ⟨rfl, fun a => ?_⟩
      (.cons ⟨rfl, fun a => Iff.rfl⟩ .nil))
    simp
    tauto
  refine ⟨hagain, ofUnordered_canonical.2.2.2.2 _ _ hagain, congrArg Findings.keys ?_⟩
  exact ofUnordered_eq_of_perm (by decide +kernel) (by decide +kernel)

end Findings

end ImpliedKeys
