import ImpliedKeys.Proofs.Analysis.Findings

/-!
# What an analysis does to the schema

An analysis that ends with a defect leaves the schema alone. One that succeeds attaches the name of
each key it finds to the tables of the key's pairs and changes nothing else. The tables of a reported
pair are there, so no attachment is passed over. Names attached before stay attached.
-/
namespace ImpliedKeys

variable {config : Config} {namer : Namer} {s : Schema} {found : Findings}

/-- Some pair of the key of a name has a column in a table. -/
def Findings.Connects (found : Findings) (key name : String) : Prop :=
  ∃ k ∈ found.keys, k.name = name ∧ ∃ a ∈ k.pairs, a.parent.table = key ∨ a.child.table = key

theorem Findings.Groups.connects_iff {reported : List Association}
    (h : found.Groups namer reported) {key name : String} :
    found.Connects key name ↔ ∃ a ∈ reported,
      (a.parent.table = key ∨ a.child.table = key) ∧ namer a.parent a.child = name := by
  constructor
  · intro hconnects
    obtain ⟨k, hk, rfl, a, ha, htable⟩ := hconnects
    obtain ⟨hreported, hname⟩ := (h.mem_pairs k hk a).mp ha
    exact ⟨a, hreported, htable, hname⟩
  · intro hpair
    obtain ⟨a, ha, htable, rfl⟩ := hpair
    obtain ⟨k, hk, hname⟩ := (h.listed_iff _).mpr ⟨a, ha, rfl⟩
    exact ⟨k, hk, hname, a, (h.mem_pairs k hk a).mpr ⟨ha, hname.symm⟩, htable⟩

theorem gains_of_ok (h : (analyze config namer s).outcome = .ok found) :
    s.Gains (analyze config namer s).schema found.Connects := by
  obtain ⟨hgroups, hgains⟩ := groups_and_gains_of_ok h
  exact hgains.congr fun key name => hgroups.connects_iff.symm

theorem schema_eq_of_error {d : Defect} (h : (analyze config namer s).outcome = .error d) :
    (analyze config namer s).schema = s := by
  cases hd : s.defect? with
  | some d => rw [analyze_of_defect hd]
  | none =>
    rw [(analyze_of_sound config namer hd).1] at h
    cases h

/-- The tables of a key that has been found are stored in the schema. -/
theorem hasTable_of_connects (h : (analyze config namer s).outcome = .ok found) {key name : String}
    (hconnects : found.Connects key name) : s.hasTable key = true := by
  obtain ⟨a, ha, htable, -⟩ := (groups_and_gains_of_ok h).1.connects_iff.mp hconnects
  have hadmissible := admissible_of_mem_keptPairs (mem_reportedPairs.mp ha).2
  rcases htable with rfl | rfl
  · exact hadmissible.parentStored
  · exact hadmissible.childStored

/-- The effect of an analysis on the schema: none with a defect, and otherwise each table gains
exactly the names of the keys that connect it. Every such table is there and has the name then. -/
theorem analyze_schema_effect (config : Config) (namer : Namer) (s : Schema) :
    (∀ d, (analyze config namer s).outcome = .error d → (analyze config namer s).schema = s) ∧
    ∀ found, (analyze config namer s).outcome = .ok found →
      s.Gains (analyze config namer s).schema found.Connects ∧
      ∀ k ∈ found.keys, ∀ a ∈ k.pairs, ∀ key, a.parent.table = key ∨ a.child.table = key →
        s.hasTable key = true ∧
        ∃ t, (analyze config namer s).schema.table? key = some t ∧ k.name ∈ t.attached := by
  refine ⟨fun d h => schema_eq_of_error h, fun found h => ⟨gains_of_ok h, ?_⟩⟩
  intro k hk a ha key htable
  have hconnects : found.Connects key k.name := ⟨k, hk, rfl, a, ha, htable⟩
  have hstored := hasTable_of_connects h hconnects
  obtain ⟨t, ht⟩ := NameMap.contains_iff.mp hstored
  obtain ⟨attached, hafter, hmem⟩ := (gains_of_ok h).table ht
  exact ⟨hstored, _, hafter, (hmem k.name).mpr (.inr hconnects)⟩

/-- In the shop each of the two keys is attached to the two tables that it connects. -/
theorem analyze_schema_effect_shop :
    ∃ found, (analyze {} .conventional shop).outcome = .ok found ∧
      found.keys.map (·.name) = ["fk_accounts_account_id_account_settings",
        "fk_orders_account_id_account_settings"] ∧
      shop.Gains (analyze {} .conventional shop).schema found.Connects ∧
      (analyze {} .conventional shop).schema.tables.entries.map
          (fun e => (e.1, e.2.attached.toList)) =
        [("account_settings", ["fk_accounts_account_id_account_settings",
            "fk_orders_account_id_account_settings"]),
          ("accounts", ["fk_accounts_account_id_account_settings"]),
          ("orders", ["fk_orders_account_id_account_settings"])] := by
  have hok := outcome_eq_of_perm {} .conventional shop_sound
    [⟨"fk_accounts_account_id_account_settings",
        [⟨⟨"account_settings", "account_id"⟩, ⟨"accounts", "account_id"⟩⟩]⟩,
      ⟨"fk_orders_account_id_account_settings",
        [⟨⟨"account_settings", "account_id"⟩, ⟨"orders", "account_id"⟩⟩]⟩]
    (by decide +kernel) (by decide +kernel)
  exact ⟨_, hok, rfl, ((analyze_schema_effect {} .conventional shop).2 _ hok).1, by decide +kernel⟩

end ImpliedKeys
