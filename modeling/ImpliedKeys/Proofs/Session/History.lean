import Mathlib.Data.List.Basic
import Mathlib.Data.List.Induction
import ImpliedKeys.Session
import ImpliedKeys.Proofs.Analysis.Attachment

/-!
# Attached names over a history

Nothing detaches a name from a table that stays in place. So the names on a table are those that
some analysis, or the table itself when it was added, has brought since the table was last displaced;
the findings they stood for may be gone. The names resolve after an analysis exactly if the
findings still connect each of them.
-/
namespace ImpliedKeys

variable {start session : Session} {history : List Action} {key name : String}

namespace Schema

/-- A name is attached to the table stored under a key. -/
def Attached (s : Schema) (key name : String) : Prop :=
  ∃ t, s.table? key = some t ∧ name ∈ t.attached

/-- No table has a name attached. -/
def Bare (s : Schema) : Prop := ∀ key name, ¬ s.Attached key name

theorem attached_addTable {s : Schema} {t : Table} :
    (s.addTable t).Attached key name ↔
      t.fullName = key ∧ name ∈ t.attached ∨ s.Attached key name ∧ t.fullName ≠ key := by
  unfold Attached table? addTable
  simp only [NameMap.get?_insert]
  by_cases h : key = t.fullName
  · simp [h]
  · simp [h, Ne.symm h]

theorem bare_of_no_tables {s : Schema} (h : s.tables = .empty) : s.Bare := by
  rintro key name ⟨t, ht, -⟩
  rw [table?, h, NameMap.get?_empty] at ht
  cases ht

theorem Bare.addTable {s : Schema} {t : Table} (h : s.Bare) (ht : ∀ name, name ∉ t.attached) :
    (s.addTable t).Bare := by
  intro key name hname
  rcases attached_addTable.mp hname with ⟨-, hmem⟩ | ⟨hold, -⟩
  · exact ht name hmem
  · exact h key name hold

theorem attached_removeTable {s : Schema} {removed : String} :
    (s.removeTable removed).Attached key name ↔ s.Attached key name ∧ removed ≠ key := by
  unfold Attached table? removeTable
  simp only [NameMap.get?_erase]
  by_cases h : key = removed
  · simp [h]
  · simp [h, Ne.symm h]

/-- A change to a table in place that keeps its names keeps all names. -/
theorem attached_modifyTable {s : Schema} {changed : String} {f : Table → Table}
    (h : ∀ t, (f t).attached = t.attached) :
    (s.modifyTable changed f).Attached key name ↔ s.Attached key name := by
  unfold Attached
  rw [table?_modifyTable]
  cases s.table? key with
  | none => simp
  | some t => by_cases hk : key = changed <;> simp [hk, h]

theorem Gains.attached_iff {s after : Schema} {gained : String → String → Prop}
    (h : s.Gains after gained) (hstored : ∀ key name, gained key name → s.hasTable key = true) :
    after.Attached key name ↔ gained key name ∨ s.Attached key name := by
  constructor
  · intro hattached
    obtain ⟨t', hafter, hname⟩ := hattached
    have hkey : key ∈ after.tables.keys := NameMap.mem_keys_iff.mpr ⟨t', hafter⟩
    rw [h.keys_eq] at hkey
    obtain ⟨t, ht⟩ := NameMap.mem_keys_iff.mp hkey
    obtain ⟨attached, hafter', hmem⟩ := h.table ht
    rw [hafter] at hafter'
    cases hafter'
    rcases (hmem name).mp hname with hold | hgained
    · exact .inr ⟨t, ht, hold⟩
    · exact .inl hgained
  · intro hname
    have htable : ∃ t, s.table? key = some t := by
      rcases hname with hgained | ⟨t, ht, -⟩
      · exact hasTable_iff.mp (hstored key name hgained)
      · exact ⟨t, ht⟩
    obtain ⟨t, ht⟩ := htable
    obtain ⟨attached, hafter, hmem⟩ := h.table ht
    refine ⟨_, hafter, (hmem name).mpr ?_⟩
    rcases hname with hgained | ⟨t', ht', hold⟩
    · exact .inr hgained
    · rw [ht] at ht'
      cases ht'
      exact .inl hold

end Schema

/-- A table that has exactly the names that connect it stands for the keys that involve it. -/
theorem Findings.forTable_eq_filter {f : Findings} {t : Table}
    (h : Increasing (f.keys.map (·.name)))
    (hiff : ∀ name, name ∈ t.attached ↔ f.Connects key name) :
    f.forTable t = f.keys.filter (·.involves key) := by
  have hnames : t.attached.toList = (f.keys.filter (·.involves key)).map (·.name) := by
    refine Increasing.ext t.attached.increasing (h.sublist (List.filter_sublist.map _)) fun name => ?_
    rw [← SortedSet.mem_def, hiff]
    unfold Connects
    simp only [← ImpliedKey.involves_iff, List.mem_map, List.mem_filter]
    constructor
    · intro hkey
      obtain ⟨k, hk, hname, hinvolves⟩ := hkey
      exact ⟨k, ⟨hk, hinvolves⟩, hname⟩
    · intro hkey
      obtain ⟨k, ⟨hk, hinvolves⟩, hname⟩ := hkey
      exact ⟨k, hk, hname, hinvolves⟩
  unfold forTable
  rw [hnames, List.filterMap_map]
  have hget : ∀ k ∈ f.keys.filter (·.involves key), (f.get? ∘ (·.name)) k = some k :=
    fun k hk => get?_of_mem h (List.mem_filter.mp hk).1
  rw [List.filterMap_congr hget, List.filterMap_some]

/-- An action puts another table under a key, or none. -/
def Action.Displaces : Action → String → Prop
  | edit (.addTable t), key => t.fullName = key
  | edit (.removeTable removed), key => removed = key
  | _, _ => False

namespace Session

/-- An action brings a name to the table stored under a key: it adds the table with the name on it,
or it is an analysis whose findings connect the table by the name. -/
def Brings (session : Session) : Action → String → String → Prop
  | .edit (.addTable t), key, name => t.fullName = key ∧ name ∈ t.attached
  | .analyze namer, key, name => ∃ found,
    (ImpliedKeys.analyze session.config namer session.schema).outcome = .ok found ∧
      found.Connects key name
  | _, _, _ => False

theorem analyze_of_ok {namer : Namer} {found : Findings}
    (h : (ImpliedKeys.analyze session.config namer session.schema).outcome = .ok found) :
    session.analyze namer = ({ session with
      schema := (ImpliedKeys.analyze session.config namer session.schema).schema,
      latest := found }, none) := by
  unfold analyze
  simp only [h]

theorem analyze_of_error {namer : Namer} {d : Defect}
    (h : (ImpliedKeys.analyze session.config namer session.schema).outcome = .error d) :
    session.analyze namer = (session, some d) := by
  unfold analyze
  simp only [h, schema_eq_of_error h]

/-- An action adds the names it brings and drops those of the tables it displaces. -/
theorem attached_act (session : Session) (a : Action) (key name : String) :
    (session.act a).schema.Attached key name ↔
      session.Brings a key name ∨ session.schema.Attached key name ∧ ¬ a.Displaces key := by
  cases a with
  | edit e =>
    cases e with
    | addTable t => exact Schema.attached_addTable
    | removeTable removed =>
      simp only [Brings, false_or]
      exact Schema.attached_removeTable
    | setSchemaName changed n | addColumn changed c | addIndex changed i | addConstraint changed c =>
      simp only [Brings, Action.Displaces, false_or, not_false_eq_true, and_true]
      exact Schema.attached_modifyTable fun t => rfl
  | configure config => simp [Brings, Action.Displaces, act, configure]
  | analyze namer =>
    simp only [Brings, Action.Displaces, act, not_false_eq_true, and_true]
    cases h : (ImpliedKeys.analyze session.config namer session.schema).outcome with
    | error d => simp [analyze_of_error h]
    | ok found =>
      rw [analyze_of_ok h, (gains_of_ok h).attached_iff fun _ _ => hasTable_of_connects h]
      simp

/-- Nothing has displaced the table at a key since an action of the history brought it a name. -/
def Survives (start : Session) (history : List Action) (key name : String) : Prop :=
  ∃ earlier a later, history = earlier ++ a :: later ∧ (start.run earlier).Brings a key name ∧
    ∀ b ∈ later, ¬ b.Displaces key

theorem not_survives_nil : ¬ Survives start [] key name := by
  rintro ⟨earlier, a, later, hsplit, -⟩
  simp at hsplit

/-- A name survives one more action if that brings it, or leaves the table in place. -/
theorem survives_concat {a : Action} :
    Survives start (history ++ [a]) key name ↔
      (start.run history).Brings a key name ∨
        Survives start history key name ∧ ¬ a.Displaces key := by
  constructor
  · intro h
    obtain ⟨earlier, b, later, hsplit, hbrings, hkept⟩ := h
    rcases List.eq_nil_or_concat' later with rfl | ⟨middle, c, rfl⟩
    · obtain ⟨rfl, hlast⟩ := List.append_inj' hsplit rfl
      cases hlast
      exact .inl hbrings
    · rw [← List.cons_append, ← List.append_assoc] at hsplit
      obtain ⟨rfl, hlast⟩ := List.append_inj' hsplit rfl
      cases hlast
      refine .inr ⟨⟨earlier, b, middle, rfl, hbrings, fun d hd => hkept d (by simp [hd])⟩, ?_⟩
      exact hkept a (by simp)
  · intro h
    rcases h with hbrings | ⟨⟨earlier, b, later, rfl, hbrings, hkept⟩, hlast⟩
    · exact ⟨history, a, [], rfl, hbrings, by simp⟩
    · refine ⟨earlier, b, later ++ [a], by simp, hbrings, fun d hd => ?_⟩
      rcases List.mem_append.mp hd with hd | hd
      · exact hkept d hd
      · rw [List.mem_singleton.mp hd]
        exact hlast

/-- The names on a table are those that survive. -/
theorem attached_run (hbare : start.schema.Bare) :
    (start.run history).schema.Attached key name ↔ Survives start history key name := by
  induction history using List.reverseRecOn with
  | nil =>
    rw [run_nil]
    exact ⟨fun h => absurd h (hbare key name), fun h => absurd h not_survives_nil⟩
  | append_singleton history a ih =>
    rw [run_concat, attached_act, survives_concat, ih]

/-- The names on each table resolve: the latest findings connect the table by them, and the keys
listed for it are those that involve it. -/
structure Resolves (session : Session) : Prop where
  connects : ∀ key name, session.schema.Attached key name → session.latest.Connects key name
  forTable_eq : ∀ key t, session.schema.table? key = some t →
    session.latest.forTable t = session.latest.keys.filter (·.involves key)

/-- After an analysis that meets no defect, its findings are the latest ones. -/
theorem analyze_of_none {namer : Namer} (h : (session.analyze namer).2 = none) :
    ∃ found, (ImpliedKeys.analyze session.config namer session.schema).outcome = .ok found ∧
      (session.analyze namer).1.latest = found := by
  cases houtcome : (ImpliedKeys.analyze session.config namer session.schema).outcome with
  | error d =>
    rw [analyze_of_error houtcome] at h
    cases h
  | ok found => exact ⟨found, rfl, by rw [analyze_of_ok houtcome]⟩

/-- After an analysis the names resolve exactly if the findings connect the names from before. -/
theorem resolves_analyze_iff {namer : Namer} (h : (session.analyze namer).2 = none) :
    (session.analyze namer).1.Resolves ↔ ∀ key name, session.schema.Attached key name →
      (session.analyze namer).1.latest.Connects key name := by
  obtain ⟨found, hok, hlatest⟩ := analyze_of_none h
  have hattached (key name : String) : (session.analyze namer).1.schema.Attached key name ↔
      found.Connects key name ∨ session.schema.Attached key name := by
    have hact := attached_act session (.analyze namer) key name
    simpa [act, Brings, Action.Displaces, hok] using hact
  rw [hlatest]
  constructor
  · intro hresolves key name hname
    have hconnects := hresolves.connects key name ((hattached key name).mpr (.inr hname))
    rwa [hlatest] at hconnects
  · intro hconnects
    have hiff (key name : String) : (session.analyze namer).1.schema.Attached key name ↔
        found.Connects key name := by
      rw [hattached]
      exact or_iff_left_of_imp (hconnects key name)
    constructor
    · intro key name hname
      rw [hlatest]
      exact (hiff key name).mp hname
    · intro key t ht
      rw [hlatest]
      have hgroups := (groups_and_gains_of_ok hok).1
      refine Findings.forTable_eq_filter hgroups.increasing_names fun name => ?_
      rw [← hiff]
      exact ⟨fun hname => ⟨t, ht, hname⟩, fun ⟨t', ht', hname⟩ => by
        rw [ht] at ht'
        cases ht'
        exact hname⟩

end Session

/-- The names of a schema that starts bare resolve after an analysis exactly if each name that
survives from the history is again the name of a pair that the analysis reports at its table. -/
theorem resolves_iff_survivors_reported {namer : Namer} (hbare : start.schema.Bare)
    (hok : ((start.run history).analyze namer).2 = none) :
    ((start.run history).analyze namer).1.Resolves ↔
      ∀ key name, Session.Survives start history key name →
        ∃ a ∈ reportedPairs (start.run history).config (start.run history).schema,
          (a.parent.table = key ∨ a.child.table = key) ∧ namer a.parent a.child = name := by
  obtain ⟨found, hfound, hlatest⟩ := Session.analyze_of_none hok
  have hgroups := (groups_and_gains_of_ok hfound).1
  rw [Session.resolves_analyze_iff hok, hlatest]
  simp only [Session.attached_run hbare, hgroups.connects_iff]

/-- Books refer to their authors by a column that no key declares. -/
def library : Session where
  schema := Schema.addTable (Schema.addTable { version := "1.0" }
    { name := "authors", columns := [{ name := "id", type := .integer none }],
      constraints := [.primaryKey ["id"]] })
    { name := "books",
      columns := [{ name := "id", type := .integer none },
        { name := "author_id", type := .integer none }],
      constraints := [.primaryKey ["id"]] }

theorem library_bare : library.schema.Bare :=
  ((Schema.bare_of_no_tables rfl).addTable fun _ => SortedSet.not_mem_empty).addTable
    fun _ => SortedSet.not_mem_empty

/-- Analysed twice without an edit between, the library's names resolve. -/
theorem resolves_iff_survivors_reported_library :
    library.schema.Bare ∧ ((library.run [.analyze .conventional]).analyze .conventional).2 = none ∧
      ((library.run [.analyze .conventional]).analyze .conventional).1.Resolves := by
  have hok : ((library.run [.analyze .conventional]).analyze .conventional).2 = none := by
    decide +kernel
  refine ⟨library_bare, hok, (resolves_iff_survivors_reported library_bare hok).mpr ?_⟩
  have hreported : ∀ e ∈ (library.run [.analyze .conventional]).schema.tables.entries,
      ∀ name ∈ e.2.attached.toList,
        ∃ a ∈ reportedPairs (library.run [.analyze .conventional]).config
          (library.run [.analyze .conventional]).schema,
          (a.parent.table = e.1 ∨ a.child.table = e.1) ∧
            Namer.conventional a.parent a.child = name := by decide +kernel
  intro key name hsurvives
  obtain ⟨t, ht, hname⟩ := (Session.attached_run library_bare).mpr hsurvives
  exact hreported (key, t) (Schema.table?_eq_some_iff.mp ht) name hname

/-- An analysis finds the key of the books, and then the key is declared. -/
def declaring : List Action :=
  [.analyze .conventional,
    .edit (.addConstraint "books" (.foreignKey ["author_id"] "authors" ["id"]))]

/-- Once the key is declared an analysis finds nothing, but the name is still on the books. -/
theorem not_resolves_declaring :
    library.schema.Bare ∧ ((library.run declaring).analyze .conventional).2 = none ∧
      ¬ ((library.run declaring).analyze .conventional).1.Resolves := by
  refine ⟨library_bare, by decide +kernel, fun hresolves => ?_⟩
  have hkeys : ((library.run declaring).analyze .conventional).1.latest.keys = [] := by
    decide +kernel
  have hbooks : (((library.run declaring).analyze .conventional).1.schema.table? "books").map
      (·.attached.toList) = some ["fk_books_author_id_authors"] := by decide +kernel
  obtain ⟨t, ht, hattached⟩ := Option.map_eq_some_iff.mp hbooks
  have hname : "fk_books_author_id_authors" ∈ t.attached := by
    rw [SortedSet.mem_def, hattached]
    exact List.mem_singleton_self _
  obtain ⟨k, hk, -⟩ := hresolves.connects "books" _ ⟨t, ht, hname⟩
  rw [hkeys] at hk
  cases hk

end ImpliedKeys
