import ImpliedKeys.Proofs.Analysis.Gathering
import ImpliedKeys.Proofs.Analysis.Proposal

/-!
# The findings of an analysis

An analysis succeeds exactly on a schema without a defect, and its findings list the reported pairs
by name: the pairs that are kept, or none below two tables. This holds for every rule that names
pairs, so names that collide merge keys and never lose a pair.
-/
namespace ImpliedKeys

variable {config : Config} {namer : Namer} {s : Schema} {found : Findings}

/-- The pairs that an analysis reports: the kept ones, if there are two tables or more. -/
def reportedPairs (config : Config) (s : Schema) : List Association :=
  if s.tableCount < 2 then [] else keptPairs config s

theorem mem_reportedPairs {a : Association} :
    a ∈ reportedPairs config s ↔ 2 ≤ s.tableCount ∧ a ∈ keptPairs config s := by
  unfold reportedPairs
  by_cases h : s.tableCount < 2
  · simp [h, Nat.not_le.mpr h]
  · simp [h, Nat.not_lt.mp h]

theorem analyze_of_defect {d : Defect} (h : s.defect? = some d) :
    analyze config namer s = ⟨.error d, s, []⟩ := by
  rw [analyze, h]

/-- Without a defect the analysis succeeds, with what it gathers from the reported pairs. -/
theorem analyze_of_sound (config : Config) (namer : Namer) (h : s.defect? = none) :
    (analyze config namer s).outcome = .ok (Findings.ofUnordered
      (Gathered.ofPairs namer s (reportedPairs config s)).keys.values) ∧
    (analyze config namer s).schema =
      (Gathered.ofPairs namer s (reportedPairs config s)).schema := by
  unfold analyze reportedPairs
  rw [h]
  by_cases hfew : s.tableCount < 2
  · rw [if_pos hfew, if_pos hfew]
    exact ⟨congrArg Except.ok Findings.ofUnordered_nil.symm, rfl⟩
  · rw [if_neg hfew, if_neg hfew]
    exact ⟨rfl, rfl⟩

/-- What is gathered is found in the one order of its canonical keys. -/
theorem outcome_eq_of_perm (config : Config) (namer : Namer) (h : s.defect? = none)
    (keys : List ImpliedKey)
    (hperm : keys.Perm ((Gathered.ofPairs namer s (reportedPairs config s)).keys.values.map
      (·.canonical)))
    (hordered : keys.Pairwise fun j k => (compare j k).isLE) :
    (analyze config namer s).outcome = .ok ⟨keys⟩ := by
  rw [(analyze_of_sound config namer h).1, Findings.ofUnordered_eq_of_perm hperm hordered]

theorem exists_ok_of_sound (config : Config) (namer : Namer) (h : s.defect? = none) :
    ∃ found, (analyze config namer s).outcome = .ok found :=
  ⟨_, (analyze_of_sound config namer h).1⟩

theorem defect?_eq_none_of_ok (h : (analyze config namer s).outcome = .ok found) :
    s.defect? = none := by
  cases hd : s.defect? with
  | none => rfl
  | some d =>
    rw [analyze_of_defect hd] at h
    cases h

/-- The findings list given pairs by name, in canonical order. -/
structure Findings.Groups (namer : Namer) (reported : List Association) (found : Findings) :
    Prop where
  increasing_names : Increasing (found.keys.map (·.name))
  increasing_pairs : ∀ k ∈ found.keys, Increasing k.pairs
  mem_pairs : ∀ k ∈ found.keys, ∀ a,
    a ∈ k.pairs ↔ a ∈ reported ∧ namer a.parent a.child = k.name
  listed_iff : ∀ name,
    (∃ k ∈ found.keys, k.name = name) ↔ ∃ a ∈ reported, namer a.parent a.child = name

/-- Grouped keys stay grouped when they are put in order. -/
theorem Gathered.Groups.ofUnordered {done : List Association} {keys : NameMap ImpliedKey}
    (h : Gathered.Groups namer done keys) :
    (Findings.ofUnordered keys.values).Groups namer done where
  increasing_names := by
    have hnames : keys.values.map (·.name) = keys.keys := by
      rw [NameMap.values, NameMap.keys, List.map_map]
      exact List.map_congr_left fun e he => h.name_eq (NameMap.get?_eq_some_iff.mpr he)
    apply Findings.increasing_names_ofUnordered
    rw [hnames]
    exact keys.increasing.nodup
  increasing_pairs k hk := by
    obtain ⟨j, -, rfl⟩ := Findings.mem_keys_ofUnordered.mp hk
    exact j.increasing_pairs_canonical
  mem_pairs k hk a := by
    obtain ⟨j, hj, rfl⟩ := Findings.mem_keys_ofUnordered.mp hk
    obtain ⟨name, hname⟩ := NameMap.mem_values_iff.mp hj
    rw [ImpliedKey.mem_pairs_canonical, h.mem_pairs hname, ImpliedKey.name_canonical, h.name_eq hname]
  listed_iff name := by
    rw [← h.stored_iff]
    constructor
    · intro hlisted
      obtain ⟨k, hk, rfl⟩ := hlisted
      obtain ⟨j, hj, rfl⟩ := Findings.mem_keys_ofUnordered.mp hk
      obtain ⟨name, hname⟩ := NameMap.mem_values_iff.mp hj
      exact ⟨j, by rw [ImpliedKey.name_canonical, h.name_eq hname]; exact hname⟩
    · intro hstored
      obtain ⟨j, hj⟩ := hstored
      exact ⟨j.canonical, Findings.mem_keys_ofUnordered.mpr
        ⟨j, NameMap.mem_values_iff.mpr ⟨name, hj⟩, rfl⟩,
        (ImpliedKey.name_canonical j).trans (h.name_eq hj)⟩

namespace Findings.Groups

variable {reported : List Association}

theorem mem_associations (h : found.Groups namer reported) {a : Association} :
    a ∈ found.associations ↔ a ∈ reported := by
  rw [Findings.mem_associations]
  constructor
  · intro hlisted
    obtain ⟨k, hk, ha⟩ := hlisted
    exact ((h.mem_pairs k hk a).mp ha).1
  · intro ha
    obtain ⟨k, hk, hname⟩ := (h.listed_iff _).mpr ⟨a, ha, rfl⟩
    exact ⟨k, hk, (h.mem_pairs k hk a).mpr ⟨ha, hname.symm⟩⟩

theorem pairs_ne_nil (h : found.Groups namer reported) {k : ImpliedKey} (hk : k ∈ found.keys) :
    k.pairs ≠ [] := by
  obtain ⟨a, ha, hname⟩ := (h.listed_iff k.name).mp ⟨k, hk, rfl⟩
  exact List.ne_nil_of_mem ((h.mem_pairs k hk a).mpr ⟨ha, hname⟩)

theorem name_eq_of_mem_pairs (h : found.Groups namer reported) {j k : ImpliedKey}
    (hj : j ∈ found.keys) (hk : k ∈ found.keys) {a : Association} (haj : a ∈ j.pairs)
    (hak : a ∈ k.pairs) : j.name = k.name :=
  ((h.mem_pairs j hj a).mp haj).2.symm.trans ((h.mem_pairs k hk a).mp hak).2

/-- Keys under two names share no pair, since a pair has one name. -/
theorem pairwise_disjoint (h : found.Groups namer reported) :
    found.keys.Pairwise fun j k => ∀ a ∈ j.pairs, a ∉ k.pairs := by
  have hne : found.keys.Pairwise fun j k => j.name ≠ k.name :=
    List.pairwise_map.mp h.increasing_names.nodup
  exact hne.imp_of_mem fun hj hk hjk a haj hak => hjk (h.name_eq_of_mem_pairs hj hk haj hak)

theorem nodup_associations (h : found.Groups namer reported) : found.associations.Nodup := by
  refine List.pairwise_flatMap.mpr ⟨fun k hk => (h.increasing_pairs k hk).nodup, ?_⟩
  refine h.pairwise_disjoint.imp fun hdisjoint a ha b hb he => ?_
  exact hdisjoint a ha (he ▸ hb)

theorem eq_of_name_eq (h : found.Groups namer reported) {j k : ImpliedKey} (hj : j ∈ found.keys)
    (hk : k ∈ found.keys) (hname : j.name = k.name) : j = k := by
  have hfound := Findings.get?_of_mem h.increasing_names hj
  rw [hname, Findings.get?_of_mem h.increasing_names hk] at hfound
  exact (Option.some.inj hfound).symm

theorem eq_of_mem_pairs (h : found.Groups namer reported) {j k : ImpliedKey} (hj : j ∈ found.keys)
    (hk : k ∈ found.keys) {a : Association} (haj : a ∈ j.pairs) (hak : a ∈ k.pairs) : j = k :=
  h.eq_of_name_eq hj hk (h.name_eq_of_mem_pairs hj hk haj hak)

/-- The keys of the findings are known from the pairs alone. -/
theorem mem_keys (h : found.Groups namer reported) {k : ImpliedKey} :
    k ∈ found.keys ↔ (∃ a ∈ reported, namer a.parent a.child = k.name) ∧ Increasing k.pairs ∧
      ∀ a, a ∈ k.pairs ↔ a ∈ reported ∧ namer a.parent a.child = k.name := by
  constructor
  · intro hk
    exact ⟨(h.listed_iff k.name).mp ⟨k, hk, rfl⟩, h.increasing_pairs k hk, h.mem_pairs k hk⟩
  · intro hkey
    obtain ⟨hnamed, hincreasing, hmem⟩ := hkey
    obtain ⟨j, hj, hname⟩ := (h.listed_iff k.name).mpr hnamed
    have hpairs : j.pairs = k.pairs := by
      refine Increasing.ext (h.increasing_pairs j hj) hincreasing fun a => ?_
      rw [h.mem_pairs j hj, hmem, hname]
    have hjk : j = k := by
      cases j
      cases k
      simp_all
    exact hjk ▸ hj

theorem of_mem_iff {other : List Association} (h : found.Groups namer reported)
    (hsame : ∀ {a}, a ∈ reported ↔ a ∈ other) : found.Groups namer other where
  increasing_names := h.increasing_names
  increasing_pairs := h.increasing_pairs
  mem_pairs k hk a := by
    rw [h.mem_pairs k hk, hsame]
  listed_iff name := by
    simp only [h.listed_iff, hsame]

theorem increasing_keys (h : found.Groups namer reported) : Increasing found.keys :=
  (List.pairwise_map.mp h.increasing_names).imp ImpliedKey.lt_of_name_lt

/-- Pairs are listed by name in one way only. -/
theorem unique {found' : Findings} (h : found.Groups namer reported)
    (h' : found'.Groups namer reported) : found = found' := by
  have hkeys : found.keys = found'.keys := by
    refine Increasing.ext h.increasing_keys h'.increasing_keys fun k => ?_
    rw [h.mem_keys, h'.mem_keys]
  cases found
  cases found'
  simp_all

end Findings.Groups

/-- What an analysis that succeeds finds, and what it leaves behind. -/
theorem groups_and_gains_of_ok (h : (analyze config namer s).outcome = .ok found) :
    found.Groups namer (reportedPairs config s) ∧
      s.Gains (analyze config namer s).schema fun key name => ∃ a ∈ reportedPairs config s,
        (a.parent.table = key ∨ a.child.table = key) ∧ namer a.parent a.child = name := by
  obtain ⟨houtcome, hschema⟩ := analyze_of_sound config namer
    (defect?_eq_none_of_ok h)
  have hfrom := Gathered.from_ofPairs namer s (reportedPairs config s)
  rw [houtcome] at h
  cases h
  exact ⟨hfrom.groups.ofUnordered, hschema ▸ hfrom.gains⟩

theorem mem_associations_of_ok (h : (analyze config namer s).outcome = .ok found)
    {a : Association} : a ∈ found.associations ↔ 2 ≤ s.tableCount ∧ a ∈ keptPairs config s := by
  rw [(groups_and_gains_of_ok h).1.mem_associations, mem_reportedPairs]

/-- Without a defect the findings of an analysis are the reported pairs, listed by name. -/
theorem outcome_eq_ok_iff (h : s.defect? = none) :
    (analyze config namer s).outcome = .ok found ↔ found.Groups namer (reportedPairs config s) := by
  constructor
  · intro hok
    exact (groups_and_gains_of_ok hok).1
  · intro hgroups
    have hok := (analyze_of_sound config namer h).1
    rw [hok, (groups_and_gains_of_ok hok).1.unique hgroups]

/-- Two tables that share a key column, and one that declares a key to the first. -/
def shop : Schema := Schema.addTable (Schema.addTable (Schema.addTable { version := "1.0" }
  { name := "accounts", columns := [{ name := "account_id", type := .integer none }],
    constraints := [.primaryKey ["account_id"]] })
  { name := "account_settings", columns := [{ name := "account_id", type := .integer none }],
    constraints := [.primaryKey ["account_id"]] })
  { name := "orders",
    columns := [{ name := "id", type := .integer none },
      { name := "account_id", type := .integer none }],
    constraints := [.primaryKey ["id"], .foreignKey ["account_id"] "accounts" ["account_id"]] }

theorem shop_sound : shop.defect? = none := by decide +kernel

/-- The analysis of a well-keyed schema without a defect reports exactly the proposable pairs whose
reverse is not proposable or whose parent is the smaller of the two columns. -/
theorem mem_associations_iff_proposable (hkeyed : s.WellKeyed) (hsound : s.defect? = none)
    (hmany : 2 ≤ s.tableCount) :
    ∃ found, (analyze config namer s).outcome = .ok found ∧ ∀ parent child,
      ⟨parent, child⟩ ∈ found.associations ↔ Proposable config s parent child ∧
        (Proposable config s child parent → compare parent child = .lt) := by
  have hok := (analyze_of_sound config namer hsound).1
  refine ⟨_, hok, fun parent child => ?_⟩
  rw [(groups_and_gains_of_ok hok).1.mem_associations, mem_reportedPairs,
    mem_keptPairs_iff hkeyed hsound]
  exact and_iff_right hmany

/-- The two key columns of the shop match each other, so the tables' order decides. -/
theorem mem_associations_iff_proposable_shop :
    shop.WellKeyed ∧ shop.defect? = none ∧ 2 ≤ shop.tableCount ∧
    ∃ found, (analyze {} .conventional shop).outcome = .ok found ∧ ∀ parent child,
      ⟨parent, child⟩ ∈ found.associations ↔ Proposable {} shop parent child ∧
        (Proposable {} shop child parent → compare parent child = .lt) := by
  have hkeyed : shop.WellKeyed := by decide +kernel
  have hmany : 2 ≤ shop.tableCount := by decide +kernel
  exact ⟨hkeyed, shop_sound, hmany, mem_associations_iff_proposable hkeyed shop_sound hmany⟩

example : keptPairs {} shop =
    [⟨⟨"account_settings", "account_id"⟩, ⟨"accounts", "account_id"⟩⟩,
      ⟨⟨"account_settings", "account_id"⟩, ⟨"orders", "account_id"⟩⟩] := by decide +kernel

/-- The findings partition the reported pairs by name, whatever the naming rule and whatever names
the schema stores its tables under. No reported pair is one column, is declared in either direction
or has its reverse reported, and which pairs are reported does not depend on the naming rule. -/
theorem findings_partition_reported (h : (analyze config namer s).outcome = .ok found) :
    Increasing (found.keys.map (·.name)) ∧
    (∀ k ∈ found.keys, k.pairs ≠ [] ∧ Increasing k.pairs ∧
      ∀ a ∈ k.pairs, namer a.parent a.child = k.name) ∧
    (∀ a, a ∈ found.associations ↔ 2 ≤ s.tableCount ∧ a ∈ keptPairs config s) ∧
    (found.keys.Pairwise fun j k => ∀ a ∈ j.pairs, a ∉ k.pairs) ∧
    (∀ a ∈ found.associations, a.parent ≠ a.child ∧
      ¬ s.Declares a.parent a.child ∧ ¬ s.Declares a.child a.parent ∧
      a.flip ∉ found.associations) ∧
    ∀ other : Namer, ∃ found', (analyze config other s).outcome = .ok found' ∧
      ∀ a, a ∈ found'.associations ↔ a ∈ found.associations := by
  have hgroups := (groups_and_gains_of_ok h).1
  have hmem (a : Association) :
      a ∈ found.associations ↔ 2 ≤ s.tableCount ∧ a ∈ keptPairs config s :=
    hgroups.mem_associations.trans mem_reportedPairs
  refine ⟨hgroups.increasing_names, fun k hk => ?_, hmem, hgroups.pairwise_disjoint, fun a ha => ?_,
    fun other => ?_⟩
  · exact ⟨hgroups.pairs_ne_nil hk, hgroups.increasing_pairs k hk,
      fun a ha => ((hgroups.mem_pairs k hk a).mp ha).2⟩
  · have hkept := ((hmem a).mp ha).2
    have hadmissible := admissible_of_mem_keptPairs hkept
    refine ⟨hadmissible.distinct, hadmissible.undeclared, hadmissible.unreversed, fun hflip => ?_⟩
    exact flip_not_mem_keepOneDirection hkept ((hmem a.flip).mp hflip).2
  · have hother := (analyze_of_sound config other
      (defect?_eq_none_of_ok h)).1
    refine ⟨_, hother, fun a => ?_⟩
    rw [(groups_and_gains_of_ok hother).1.mem_associations, hgroups.mem_associations]

/-- Under one name for all pairs the shop's pairs form one key. -/
theorem findings_partition_reported_shop :
    ∃ found, (analyze {} (fun _ _ => "weak") shop).outcome = .ok found ∧
      found.keys = [⟨"weak", [⟨⟨"account_settings", "account_id"⟩, ⟨"accounts", "account_id"⟩⟩,
        ⟨⟨"account_settings", "account_id"⟩, ⟨"orders", "account_id"⟩⟩]⟩] ∧
      Increasing (found.keys.map (·.name)) ∧
      ∀ a, a ∈ found.associations ↔ 2 ≤ shop.tableCount ∧ a ∈ keptPairs {} shop := by
  have hok := outcome_eq_of_perm {} (fun _ _ => "weak") shop_sound
    [⟨"weak", [⟨⟨"account_settings", "account_id"⟩, ⟨"accounts", "account_id"⟩⟩,
      ⟨⟨"account_settings", "account_id"⟩, ⟨"orders", "account_id"⟩⟩]⟩]
    (by decide +kernel) (by decide +kernel)
  obtain ⟨hnames, -, hmem, -⟩ := findings_partition_reported hok
  exact ⟨_, hok, rfl, hnames, hmem⟩

end ImpliedKeys
