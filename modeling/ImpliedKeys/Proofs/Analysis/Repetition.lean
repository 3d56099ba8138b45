import ImpliedKeys.Proofs.Analysis.Meaning

/-!
# Repeating an analysis

The names that are attached to tables are nothing that an analysis reads. So schemas that differ in
them only have the same findings or the same defect. An analysis that succeeds attaches names only,
and one that is repeated finds the same names again, which are all there: the schema stays as the
first analysis left it.
-/
namespace ImpliedKeys

variable {config : Config} {namer : Namer} {s s' : Schema} {t u : Table} {key written : String}

def Table.detached (t : Table) : Table := { t with attached := .empty }

theorem Table.alike_of_detached_eq (h : t.detached = u.detached) : t.Alike u := by
  have halike (v : Table) : v.Alike v.detached :=
    ⟨⟨fun _ => Iff.rfl, (Resembles.refl v).comparable, fun _ => Iff.rfl, fun _ => Iff.rfl,
      fun _ => Iff.rfl⟩, fun _ _ _ => Iff.rfl⟩
  exact (halike t).trans (h ▸ (halike u).symm)

namespace Schema

/-- The schema with no name attached to any table, in which schemas agree that differ in attached
names only. -/
def detached (s : Schema) : Schema :=
  { s with tables := s.tables.mapWithName fun _ t => t.detached }

theorem table?_detached : s.detached.table? key = (s.table? key).map (·.detached) :=
  NameMap.get?_mapWithName ..

theorem outline_detached (s : Schema) : s.detached.outline = s.outline := by
  unfold outline detached NameMap.mapWithName
  rw [List.map_map]
  rfl

theorem referenced?_detached :
    s.detached.referenced? t.detached written = (s.referenced? t written).map (·.detached) := by
  have hresolve : s.detached.resolve? t.detached written = s.resolve? t written :=
    resolve?_of_outline_eq s.outline_detached rfl written
  unfold referenced?
  rw [hresolve, Option.map_bind]
  exact Option.bind_congr fun name _ => table?_detached

theorem referenceDefect?_detached {columns others : List String} :
    s.detached.referenceDefect? key t.detached columns written others =
      s.referenceDefect? key t columns written others := by
  unfold referenceDefect?
  rw [referenced?_detached]
  cases s.referenced? t written <;> rfl

theorem constraintDefect?_detached {constraint : Constraint} :
    s.detached.constraintDefect? key t.detached constraint =
      s.constraintDefect? key t constraint := by
  have hmissing : t.detached.firstMissing? constraint.columns = t.firstMissing? constraint.columns :=
    rfl
  unfold constraintDefect?
  rw [hmissing]
  cases t.firstMissing? constraint.columns with
  | some column => rfl
  | none =>
    cases constraint with
    | foreignKey columns written others => exact referenceDefect?_detached
    | primaryKey | unique | check => rfl

/-- The first defect is the same, and so is its text. -/
theorem defect?_detached (s : Schema) : s.detached.defect? = s.defect? := by
  have htable (e : String × Table) :
      s.detached.tableDefect? e.1 e.2.detached = s.tableDefect? e.1 e.2 := by
    have hconstraints : s.detached.constraintDefect? e.1 e.2.detached =
        s.constraintDefect? e.1 e.2 := funext fun _ => constraintDefect?_detached
    unfold tableDefect?
    rw [hconstraints]
    rfl
  have hentries : s.detached.tables.entries = s.tables.entries.map fun e => (e.1, e.2.detached) :=
    rfl
  unfold defect?
  rw [hentries, List.findSome?_map]
  exact congrArg (List.findSome? · s.tables.entries) (funext htable)

theorem alike_of_detached_eq (h : s.detached = s'.detached) : s.Alike s' where
  outline_eq := by
    rw [← outline_detached s, h, outline_detached]
  tables {key t u} ht hu := by
    have hboth : (s.table? key).map (·.detached) = (s'.table? key).map (·.detached) := by
      rw [← table?_detached, ← table?_detached, h]
    rw [ht, hu] at hboth
    exact Table.alike_of_detached_eq (Option.some.inj hboth)

namespace Gains

variable {after : Schema} {gained : String → String → Prop}

theorem table?_eq_none (h : s.Gains after gained) (hkey : s.table? key = none) :
    after.table? key = none := by
  rw [Option.eq_none_iff_forall_not_mem]
  intro t ht
  have hmem : key ∈ after.tables.keys := NameMap.mem_keys_iff.mpr ⟨t, ht⟩
  rw [h.keys_eq] at hmem
  obtain ⟨u, hu⟩ := NameMap.mem_keys_iff.mp hmem
  have hu : s.table? key = some u := hu
  rw [hkey] at hu
  cases hu

theorem detached_eq (h : s.Gains after gained) : after.detached = s.detached := by
  refine Schema.ext h.version_eq fun key => ?_
  rw [table?_detached, table?_detached]
  cases hkey : s.table? key with
  | none => rw [h.table?_eq_none hkey]
  | some t =>
    obtain ⟨attached, hafter, -⟩ := h.table hkey
    rw [hafter]
    rfl

/-- A schema that gains only names that it has is left as it is. -/
theorem eq_of_attached (h : s.Gains after gained)
    (hold : ∀ {key t name}, s.table? key = some t → gained key name → name ∈ t.attached) :
    after = s := by
  refine Schema.ext h.version_eq fun key => ?_
  cases hkey : s.table? key with
  | none => exact h.table?_eq_none hkey
  | some t =>
    obtain ⟨attached, hafter, hmem⟩ := h.table hkey
    have hattached : attached = t.attached :=
      SortedSet.ext fun name => (hmem name).trans (or_iff_left_of_imp (hold hkey))
    rw [hafter, hattached]

end Gains

/-- The schema after a number of analyses. -/
def analyzed (config : Config) (namer : Namer) (s : Schema) : Nat → Schema
  | 0 => s
  | n + 1 => (analyze config namer (analyzed config namer s n)).schema

end Schema

/-- An analysis gives the same findings or the same defect whatever names are attached. -/
theorem outcome_eq_of_detached_eq (config : Config) (namer : Namer)
    (h : s.detached = s'.detached) :
    (analyze config namer s).outcome = (analyze config namer s').outcome := by
  have hdefect : s.defect? = s'.defect? := by
    rw [← s.defect?_detached, h, s'.defect?_detached]
  cases hs : s.defect? with
  | some d => rw [analyze_of_defect hs, analyze_of_defect (hdefect ▸ hs)]
  | none =>
    have hsame : SameAnalysis config namer s s' :=
      (Schema.alike_of_detached_eq h).sameAnalysis hs (hdefect ▸ hs)
    obtain ⟨found, hfound, hfound', -⟩ := hsame
    rw [hfound, hfound']

theorem detached_analyze (config : Config) (namer : Namer) (s : Schema) :
    (analyze config namer s).schema.detached = s.detached := by
  cases h : (analyze config namer s).outcome with
  | error d => rw [schema_eq_of_error h]
  | ok found => exact (gains_of_ok h).detached_eq

/-- A second analysis leaves the schema as the first one left it. -/
theorem schema_analyze_analyze (config : Config) (namer : Namer) (s : Schema) :
    (analyze config namer (analyze config namer s).schema).schema =
      (analyze config namer s).schema := by
  have hsame := outcome_eq_of_detached_eq config namer (detached_analyze config namer s)
  cases h : (analyze config namer s).outcome with
  | error d => exact schema_eq_of_error (hsame.trans h)
  | ok found =>
    refine (gains_of_ok (hsame.trans h)).eq_of_attached fun {key t name} ht hconnects => ?_
    -- the first analysis has attached the name to this very table
    obtain ⟨u, hu⟩ := Schema.hasTable_iff.mp (hasTable_of_connects h hconnects)
    obtain ⟨attached, hafter, hmem⟩ := (gains_of_ok h).table hu
    rw [ht] at hafter
    cases hafter
    exact (hmem name).mpr (.inr hconnects)

theorem analyzed_succ (config : Config) (namer : Namer) (s : Schema) (n : Nat) :
    s.analyzed config namer (n + 1) = (analyze config namer s).schema := by
  induction n with
  | zero => rfl
  | succ n ih =>
    rw [Schema.analyzed, ih]
    exact schema_analyze_analyze config namer s

theorem detached_analyzed (config : Config) (namer : Namer) (s : Schema) (n : Nat) :
    (s.analyzed config namer n).detached = s.detached := by
  cases n with
  | zero => rfl
  | succ n =>
    rw [analyzed_succ]
    exact detached_analyze config namer s

/-- Schemas that differ in attached names only have the same findings, in the same order, or the same
defect. So does a schema after any number of analyses, and each of them leaves it as the first one
left it. -/
theorem repeated_analysis_stable (config : Config) (namer : Namer)
    (h : s.detached = s'.detached) :
    (analyze config namer s).outcome = (analyze config namer s').outcome ∧
    ∀ n, (analyze config namer (s.analyzed config namer n)).outcome =
        (analyze config namer s).outcome ∧
      s.analyzed config namer (n + 1) = (analyze config namer s).schema :=
  ⟨outcome_eq_of_detached_eq config namer h, fun n =>
    ⟨outcome_eq_of_detached_eq config namer (detached_analyzed config namer s n),
      analyzed_succ config namer s n⟩⟩

/-- The shop has the same findings with a name on its orders that no analysis has brought there. -/
theorem repeated_analysis_stable_shop :
    shop.detached = (shop.attach "fk_old" "orders").detached ∧
    shop ≠ shop.attach "fk_old" "orders" ∧
    (analyze {} .conventional shop).outcome =
      (analyze {} .conventional (shop.attach "fk_old" "orders")).outcome := by
  have hdetached : shop.detached = (shop.attach "fk_old" "orders").detached := by decide +kernel
  exact ⟨hdetached, by decide +kernel,
    (repeated_analysis_stable {} .conventional hdetached).1⟩

end ImpliedKeys
