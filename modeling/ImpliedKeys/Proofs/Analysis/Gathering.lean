import ImpliedKeys.Analysis.Run
import ImpliedKeys.Proofs.Schema.Soundness

/-!
# What an analysis gathers

Kept pairs are gathered one after the other. After any number of them each name stands for one key
that holds exactly the pairs of that name, and the schema differs from the one at the start in
attached names only: those of the pairs that have a column in the table. The findings are the
gathered keys in canonical order.
-/
namespace ImpliedKeys

variable {namer : Namer}

/-- Each name of a pair stands for one key, which holds exactly the pairs of that name. -/
structure Gathered.Groups (namer : Namer) (done : List Association) (keys : NameMap ImpliedKey) :
    Prop where
  name_eq : ∀ {name k}, keys.get? name = some k → k.name = name
  mem_pairs : ∀ {name k}, keys.get? name = some k →
    ∀ a, a ∈ k.pairs ↔ a ∈ done ∧ namer a.parent a.child = name
  stored_iff : ∀ {name},
    (∃ k, keys.get? name = some k) ↔ ∃ a ∈ done, namer a.parent a.child = name

namespace Gathered.Groups

variable {done : List Association} {keys : NameMap ImpliedKey}

theorem empty : Groups namer [] .empty where
  name_eq h := by cases h
  mem_pairs h := by cases h
  stored_iff := by simp

/-- The key that the next pair of a name joins holds the earlier pairs of that name, also when it is
new. -/
theorem held (h : Groups namer done keys) (name : String) :
    ((keys.get? name).getD { name }).name = name ∧
      ∀ a, a ∈ ((keys.get? name).getD { name }).pairs ↔
        a ∈ done ∧ namer a.parent a.child = name := by
  cases hk : keys.get? name with
  | some k => exact ⟨h.name_eq hk, h.mem_pairs hk⟩
  | none =>
    refine ⟨rfl, fun a => ⟨fun ha => absurd ha List.not_mem_nil, fun ha => ?_⟩⟩
    obtain ⟨k, hstored⟩ := h.stored_iff.mpr ⟨a, ha⟩
    rw [hk] at hstored
    cases hstored

/-- The pairs of a name, after one more pair. -/
theorem named_concat {a b : Association} {name : String} :
    b ∈ done ++ [a] ∧ namer b.parent b.child = name ↔
      (b ∈ done ∧ namer b.parent b.child = name) ∨ b = a ∧ namer a.parent a.child = name := by
  rw [List.mem_append, List.mem_singleton, or_and_right]
  apply or_congr_right
  exact and_congr_right fun he => by rw [he]

theorem insert (h : Groups namer done keys) (a : Association) :
    Groups namer (done ++ [a])
      (keys.insert (namer a.parent a.child)
        (((keys.get? (namer a.parent a.child)).getD { name := namer a.parent a.child }).add a)) := by
  obtain ⟨hname, hpairs⟩ := h.held (namer a.parent a.child)
  constructor
  · intro name k hk
    rw [NameMap.get?_insert] at hk
    split at hk
    · next he =>
      cases hk
      rw [ImpliedKey.name_add, hname, he]
    · exact h.name_eq hk
  · intro name k hk b
    rw [NameMap.get?_insert] at hk
    split at hk
    · next he =>
      cases hk
      subst he
      rw [ImpliedKey.mem_pairs_add, hpairs, named_concat, and_iff_left rfl]
    · next hne =>
      rw [h.mem_pairs hk, named_concat]
      exact (or_iff_left fun hlast => hne hlast.2.symm).symm
  · intro name
    simp only [named_concat]
    rw [exists_or, exists_eq_left, ← h.stored_iff, NameMap.get?_insert]
    by_cases he : name = namer a.parent a.child
    · rw [if_pos he]
      exact ⟨fun _ => .inr he.symm, fun _ => ⟨_, rfl⟩⟩
    · rw [if_neg he]
      exact (or_iff_left fun hlast => he hlast.symm).symm

end Gathered.Groups

/-- A schema that differs from `s` in attached names only: a table has its old names and those it
gains. -/
structure Schema.Gains (s after : Schema) (gained : String → String → Prop) : Prop where
  version_eq : after.version = s.version
  keys_eq : after.tables.keys = s.tables.keys
  table : ∀ {key t}, s.table? key = some t → ∃ attached : SortedSet String,
    after.table? key = some { t with attached } ∧
      ∀ name, name ∈ attached ↔ name ∈ t.attached ∨ gained key name

namespace Schema.Gains

variable {s after : Schema} {gained other : String → String → Prop}

theorem refl (s : Schema) : s.Gains s fun _ _ => False where
  version_eq := rfl
  keys_eq := rfl
  table {_ t} ht := ⟨t.attached, ht, by simp⟩

theorem congr (h : s.Gains after gained) (hiff : ∀ key name, gained key name ↔ other key name) :
    s.Gains after other where
  version_eq := h.version_eq
  keys_eq := h.keys_eq
  table ht := by
    obtain ⟨attached, hafter, hmem⟩ := h.table ht
    exact ⟨attached, hafter, fun name => (hmem name).trans (or_congr_right (hiff _ name))⟩

theorem tableCount_eq (h : s.Gains after gained) : after.tableCount = s.tableCount := by
  have hkeys := congrArg List.length h.keys_eq
  unfold NameMap.keys at hkeys
  rwa [List.length_map, List.length_map] at hkeys

/-- One attachment makes one table gain one name, if the table is there. -/
theorem attach (h : s.Gains after gained) (name key : String) :
    s.Gains (after.attach name key) fun k n => gained k n ∨ k = key ∧ n = name where
  version_eq := h.version_eq
  keys_eq := (NameMap.keys_modify ..).trans h.keys_eq
  table {k t} ht := by
    obtain ⟨attached, hafter, hmem⟩ := h.table ht
    rw [Schema.attach, table?_modifyTable, hafter, Option.map_some]
    by_cases hk : k = key
    · subst hk
      refine ⟨attached.insert name, by rw [if_pos rfl], fun n => ?_⟩
      rw [SortedSet.mem_insert, hmem]
      simp only [true_and]
      rw [or_comm, or_assoc]
    · exact ⟨attached, by rw [if_neg hk], fun n => by simp [hmem, hk]⟩

end Schema.Gains

namespace Gathered

variable {s : Schema} {g : Gathered} {done : List Association}

/-- What holds of everything gathered from some pairs, starting with a schema. -/
structure From (namer : Namer) (s : Schema) (done : List Association) (g : Gathered) : Prop where
  groups : Groups namer done g.keys
  gains : s.Gains g.schema fun key name =>
    ∃ a ∈ done, (a.parent.table = key ∨ a.child.table = key) ∧ namer a.parent a.child = name

theorem From.add (h : From namer s done g) (a : Association) :
    From namer s (done ++ [a]) (g.add namer a) where
  groups := h.groups.insert a
  gains := by
    have hboth := (h.gains.attach (namer a.parent a.child) a.parent.table).attach
      (namer a.parent a.child) a.child.table
    refine hboth.congr fun key name => ?_
    constructor
    · intro hgain
      rcases hgain with (⟨b, hb, hgain⟩ | ⟨rfl, rfl⟩) | ⟨rfl, rfl⟩
      · exact ⟨b, List.mem_append_left _ hb, hgain⟩
      · exact ⟨a, by simp, .inl rfl, rfl⟩
      · exact ⟨a, by simp, .inr rfl, rfl⟩
    · intro hpair
      obtain ⟨b, hb, htable, rfl⟩ := hpair
      rcases List.mem_append.mp hb with hb | hb
      · exact .inl (.inl ⟨b, hb, htable, rfl⟩)
      · rw [List.mem_singleton.mp hb] at htable ⊢
        rcases htable with rfl | rfl
        · exact .inl (.inr ⟨rfl, rfl⟩)
        · exact .inr ⟨rfl, rfl⟩

theorem From.foldl (h : From namer s done g) (kept : List Association) :
    From namer s (done ++ kept) (kept.foldl (Gathered.add namer) g) := by
  induction kept generalizing g done with
  | nil => simpa using h
  | cons a kept ih =>
    have hstep := ih (h.add a)
    rwa [List.append_assoc] at hstep

theorem from_ofPairs (namer : Namer) (s : Schema) (kept : List Association) :
    From namer s kept (ofPairs namer s kept) := by
  have hstart : From namer s [] { schema := s } :=
    ⟨.empty, (Schema.Gains.refl s).congr fun _ _ => by simp⟩
  exact hstart.foldl kept

end Gathered

end ImpliedKeys
