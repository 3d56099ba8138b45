import Mathlib
import ImpliedKeys.Command.Program
import ImpliedKeys.Proofs.Analysis.Meaning
import ImpliedKeys.Proofs.Schema.Loading

/-!
# A settings file beside the schema files

The name of a project's own settings file is that of a schema file. So where the schema files stand in
the project directory itself, the settings are read as one of them too. The project is not analysed
then unless its settings happen to be the text of a schema; and it is reported as with the same
settings from elsewhere exactly if what they say as a schema leaves the report as it is. All this holds
whatever the texts are decoded with.
-/
namespace ImpliedKeys

theorem FileView.loadConfig_eq_ok {view : FileView} {decode : ConfigDecoder} {path text : String}
    {config : Config} (hfound : view path = some (.file (some text)))
    (hconfig : decode text = some config) (hvalid : config.isValid = true) :
    view.loadConfig decode path = .ok config := by
  have hread : decode.read text = .ok config := by
    unfold ConfigDecoder.read
    rw [hconfig]
  have hchecked : config.checked = .ok config := by
    unfold Config.checked Config.refusal?
    rw [if_pos hvalid]
  unfold loadConfig read get
  rw [hfound]
  simp [bind, Except.bind, FileTree.text?, hread, whileDoing, hchecked]

namespace AnalyzeRequest

variable {r : AnalyzeRequest} {decoders : Decoders} {view : FileView} {config : Config}
  {s s' : Schema} {tables : Nat} {output : String}

/-- With some settings, a schema of a number of tables is reported in an output. -/
def Shows (r : AnalyzeRequest) (config : Config) (s : Schema) (tables : Nat) (output : String) :
    Prop :=
  s.tableCount = tables ∧ ∃ findings, (analyze config .conventional s).outcome = .ok findings ∧
    Report.render { tables, findings } r.coloured r.format = output

theorem report_eq_ok_iff :
    (r.report config s).outcome = .ok output ↔ ∃ tables, r.Shows config s tables output := by
  unfold report Shows
  cases hrun : (analyze config .conventional s).outcome with
  | error d => simp [hrun, whileDoing]
  | ok findings =>
    have hcount : (analyze config .conventional s).schema.tableCount = s.tableCount :=
      (groups_and_gains_of_ok hrun).2.tableCount_eq
    simp [hrun, hcount]

/-- The version of a schema is not reported. -/
theorem Shows.of_tables_eq (h : r.Shows config s tables output) (htables : s.tables = s'.tables) :
    r.Shows config s' tables output := by
  obtain ⟨hcount, findings, hok, hrender⟩ := h
  obtain ⟨found, hfound, hfound', -⟩ : SameAnalysis config .conventional s s' :=
    Schema.sameAnalysis_of_tables_eq htables (defect?_eq_none_of_ok hok)
  cases hok.symm.trans hfound
  exact ⟨(congrArg NameMap.size htables).symm.trans hcount, findings, hfound', hrender⟩

/-- The request is answered with a report on a number of tables. -/
def Reports (r : AnalyzeRequest) (decoders : Decoders) (view : FileView) (tables : Nat)
    (output : String) : Prop :=
  ∃ config loaded, view.resolveConfig decoders.config r.project r.config = .ok config ∧
    view.load decoders.schema r.schemaPath = .ok loaded ∧
    r.Shows config loaded.schema tables output

theorem answer_eq_ok_iff :
    (r.answer decoders view).outcome = .ok output ↔
      ∃ tables, r.Reports decoders view tables output := by
  unfold answer Reports
  cases hconfig : view.resolveConfig decoders.config r.project r.config with
  | error f => simp
  | ok config =>
    cases hload : view.load decoders.schema r.schemaPath with
    | error f => simp [whileDoing]
    | ok loaded => simp [whileDoing, report_eq_ok_iff]

/-- Why a project is not analysed whose settings are read as a schema, but are none. -/
def undecodedSettings (r : AnalyzeRequest) : Failure :=
  let path := Text.quoted (Path.join r.schemaPath Config.fileName)
  { activities := ["Failed to parse schema", "Failed to parse schema file: " ++ path,
      "Failed to parse YAML: " ++ path]
    cause := .malformed "not the text of a schema" }

end AnalyzeRequest

/-- A valid settings text has been written into the directory of a project, which is also where its
schema files are. These stand elsewhere too as they were, for a request that asks for the settings. -/
structure SettingsWritten (decoders : Decoders) (before after : FileView)
    (own copy : AnalyzeRequest) (text : String) (config : Config)
    (old new kept : List (String × FileTree)) : Prop where
  decoded : decoders.config text = some config
  valid : config.isValid = true
  unasked : own.config = none
  asked : copy.config = some (Path.join own.project Config.fileName)
  format_eq : copy.format = own.format
  coloured_eq : copy.coloured = own.coloured
  earlier : before.Lists own.schemaPath old
  later : after.Lists own.schemaPath new
  written : ∀ e, e ∈ new ↔
    e = (Config.fileName, .file (some text)) ∨ e ∈ old ∧ e.1 ≠ Config.fileName
  found : after (Path.join own.project Config.fileName) = some (.file (some text))
  copied : after.Lists copy.schemaPath kept
  files_eq : schemaFiles (.directory kept) = schemaFiles (.directory old)

namespace SettingsWritten

variable {decoders : Decoders} {before after : FileView} {own copy : AnalyzeRequest}
  {text : String} {config : Config} {old new kept : List (String × FileTree)} {s told : Schema}
  {tables : Nat} {output : String}
  (h : SettingsWritten decoders before after own copy text config old new kept)

include h

/-- The settings are among the schema files: their name is that of one. -/
theorem mem_files_iff {e : String × FileTree} : e ∈ schemaFiles (.directory new) ↔
    e = (Config.fileName, .file (some text)) ∨
      e ∈ schemaFiles (.directory old) ∧ e.1 ≠ Config.fileName := by
  have hname : isSchemaFileName Config.fileName = true := by decide
  rw [mem_schemaFiles_iff, mem_schemaFiles_iff, h.written]
  constructor
  · intro hfile
    obtain ⟨rfl | ⟨he, hother⟩, hfile⟩ := hfile
    · exact .inl rfl
    · exact .inr ⟨⟨he, hfile⟩, hother⟩
  · intro hfile
    obtain rfl | ⟨⟨he, hfile⟩, hother⟩ := hfile
    · exact ⟨.inl rfl, rfl, hname⟩
    · exact ⟨.inr ⟨he, hother⟩, hfile⟩

theorem resolveConfig_own :
    after.resolveConfig decoders.config own.project own.config = .ok config := by
  have hload := FileView.loadConfig_eq_ok h.found h.decoded h.valid
  simp [FileView.resolveConfig, h.unasked, h.found, hload, whileDoing]

theorem resolveConfig_copy :
    after.resolveConfig decoders.config copy.project copy.config = .ok config := by
  have hload := FileView.loadConfig_eq_ok h.found h.decoded h.valid
  simp [FileView.resolveConfig, h.asked, hload, whileDoing]

section Decoded

variable (hold : ∀ e ∈ schemaFiles (.directory old), ∃ s, decoders.schema.schema? e.2 = some s)

include hold

theorem forall_schema?_iff :
    (∀ e ∈ schemaFiles (.directory new), ∃ s, decoders.schema.schema? e.2 = some s) ↔
      ∃ told, decoders.schema text = some told := by
  constructor
  · intro hnew
    exact hnew (Config.fileName, .file (some text)) (h.mem_files_iff.mpr (.inl rfl))
  · intro htold e he
    obtain rfl | ⟨he, -⟩ := h.mem_files_iff.mp he
    · exact htold
    · exact hold e he

theorem reports_iff : own.Reports decoders after tables output ↔
    ∃ told merged, decoders.schema text = some told ∧
      decoders.schema.Merges (schemaFiles (.directory new)) merged ∧
      own.Shows config merged tables output := by
  have hdecoded := h.forall_schema?_iff hold
  unfold AnalyzeRequest.Reports
  rw [h.resolveConfig_own]
  constructor
  · intro hreports
    obtain ⟨_, loaded, hresolved, hloaded, hshows⟩ := hreports
    cases hresolved
    obtain ⟨hnew, hmerges⟩ := h.later.exists_load_iff.mp ⟨loaded, hloaded, rfl⟩
    obtain ⟨told, htold⟩ := hdecoded.mp hnew
    exact ⟨told, loaded.schema, htold, hmerges, hshows⟩
  · intro hmerged
    obtain ⟨told, merged, htold, hmerges, hshows⟩ := hmerged
    obtain ⟨loaded, hloaded, rfl⟩ :=
      h.later.exists_load_iff.mpr ⟨hdecoded.mpr ⟨told, htold⟩, hmerges⟩
    exact ⟨config, loaded, rfl, hloaded, hshows⟩

/-- All other schema files are read, so it is the settings that end the loading. -/
theorem outcome_of_undecoded (hnone : decoders.schema text = none) :
    (own.answer decoders after).outcome = .error own.undecodedSettings := by
  obtain ⟨f, hf⟩ : ∃ f, after.loadDirectory decoders.schema own.schemaPath = .error f := by
    cases hload : after.loadDirectory decoders.schema own.schemaPath with
    | error f => exact ⟨f, rfl⟩
    | ok loaded =>
      obtain ⟨told, htold⟩ := (h.forall_schema?_iff hold).mp
        (h.later.exists_loadDirectory_iff.mp ⟨loaded, hload⟩)
      rw [hnone] at htold
      cases htold
  obtain ⟨e, hlisted, hundecoded, -, g, hg, rfl⟩ := h.later.reportsFirst hf
  obtain rfl | ⟨he, -⟩ := h.mem_files_iff.mp hlisted
  · rw [FileView.loadFile_eq (h.later.found _ ((h.written _).mpr (.inl rfl)))] at hg
    simp only [SchemaDecoder.readFile, FileTree.text?, Except.bind, SchemaDecoder.read, hnone,
      whileDoing, Except.map] at hg
    cases hg
    unfold AnalyzeRequest.answer
    rw [h.resolveConfig_own, h.later.load_eq, hf]
    rfl
  · obtain ⟨s, hs⟩ := hold e he
    rw [hundecoded] at hs
    cases hs

/-- Settings that tell of no table are passed over. -/
theorem reports_of_no_tables
    (hmerges : decoders.schema.Merges (schemaFiles (.directory old)) s)
    (hshows : own.Shows config s tables output) (htold : decoders.schema text = some told)
    (hempty : told.tables = .empty)
    (hearlier : ∀ e ∈ old, e.1 = Config.fileName →
      ∀ s, decoders.schema.schema? e.2 = some s → s.tables = .empty) :
    own.Reports decoders after tables output := by
  obtain ⟨loaded, hloaded⟩ := h.later.exists_loadDirectory_iff.mpr
    ((h.forall_schema?_iff hold).mpr ⟨told, htold⟩)
  have hmerged := h.later.merges hloaded
  have htables : s.tables = loaded.schema.tables := by
    -- before and after, the files that tell of a table are the same
    refine hmerges.tables_eq_of_telling hmerged fun c other ho htells => ?_
    rw [h.mem_files_iff]
    constructor
    · intro hc
      have hlisted := (mem_schemaFiles_iff.mp hc).1
      exact .inr ⟨hc, fun hname => htells (hearlier c hlisted hname other ho)⟩
    · intro hc
      obtain rfl | ⟨hc, -⟩ := hc
      · cases htold.symm.trans ho
        exact absurd hempty htells
      · exact hc
  exact (h.reports_iff hold).mpr
    ⟨told, loaded.schema, htold, hmerged, hshows.of_tables_eq htables⟩

end Decoded

end SettingsWritten

/-- With any decoders a project that is analysed is also analysed, with as many tables, from a copy of
its schema files for which its own settings are asked. In its own place it gives that report exactly if
the settings are decoded as a schema too and what they and the files say together is reported so. If
they are no schema, it fails at them. If they are one without tables, and so were the settings before
them, it gives that report. -/
theorem own_settings_harmless_iff {decoders : Decoders} {before after : FileView}
    {own copy : AnalyzeRequest} {text : String} {config : Config}
    {old new kept : List (String × FileTree)}
    (h : SettingsWritten decoders before after own copy text config old new kept)
    (hok : ∃ output, (own.answer decoders before).outcome = .ok output) :
    ∃ tables output expected,
      own.Reports decoders before tables output ∧ copy.Reports decoders after tables expected ∧
      (own.Reports decoders after tables expected ↔
        ∃ told merged, decoders.schema text = some told ∧
          decoders.schema.Merges (schemaFiles (.directory new)) merged ∧
          own.Shows config merged tables expected) ∧
      (decoders.schema text = none →
        (own.answer decoders after).outcome = .error own.undecodedSettings) ∧
      ∀ told, decoders.schema text = some told → told.tables = .empty →
        (∀ e ∈ old, e.1 = Config.fileName →
          ∀ s, decoders.schema.schema? e.2 = some s → s.tables = .empty) →
        own.Reports decoders after tables expected := by
  obtain ⟨output, hok⟩ := hok
  obtain ⟨tables, hreports⟩ := AnalyzeRequest.answer_eq_ok_iff.mp hok
  -- of the settings before only this is used, that the schema then had no defect
  obtain ⟨_, loaded, -, hloaded, hcount, _, hfindings, -⟩ := id hreports
  obtain ⟨hold, hmerges⟩ := h.earlier.exists_load_iff.mp ⟨loaded, hloaded, rfl⟩
  obtain ⟨findings, hfound⟩ :=
    exists_ok_of_sound config .conventional (defect?_eq_none_of_ok hfindings)
  let expected := Report.render { tables, findings } own.coloured own.format
  have hshows : own.Shows config loaded.schema tables expected := ⟨hcount, findings, hfound, rfl⟩
  refine ⟨tables, output, expected, hreports, ?_, h.reports_iff hold, h.outcome_of_undecoded hold,
    fun told htold => h.reports_of_no_tables hold hmerges hshows htold⟩
  obtain ⟨unchanged, hunchanged, hschema⟩ : ∃ unchanged,
      after.load decoders.schema copy.schemaPath = .ok unchanged ∧
        unchanged.schema = loaded.schema := by
    rw [h.copied.exists_load_iff, h.files_eq]
    exact ⟨hold, hmerges⟩
  refine ⟨config, unchanged, h.resolveConfig_copy, hunchanged, ?_⟩
  rw [hschema]
  exact ⟨hcount, findings, hfound, by rw [h.format_eq, h.coloured_eq]⟩

/-- A record without a version is no schema. -/
theorem Schema.ofNode?_eq_none {n : Yaml.Node} {entries : List (String × Yaml.Node)}
    (hentries : n.entriesByName? = some entries) (hversion : "version" ∉ entries.map (·.1)) :
    ofNode? n = none := by
  rw [Option.eq_none_iff_forall_ne_some]
  intro s hs
  obtain ⟨fields, hfields, hs⟩ := Option.bind_eq_some_iff.mp hs
  obtain ⟨version, hread, -⟩ := Option.bind_eq_some_iff.mp hs
  obtain ⟨v, hlookup, -⟩ := Fields.required?_eq_some_iff.mp hread
  obtain ⟨-, -, rfl⟩ := (Yaml.Node.record?_eq_some_iff hentries).mp hfields
  have hmem := (List.mem_filter.mp (mem_of_lookup hlookup)).1
  exact hversion (List.mem_map_of_mem hmem)

namespace Catalogue

def tables : String × FileTree :=
  ("catalogue.yaml", .file (some
    "{version: 1.0, tables: {a: {name: books, columns: []}, b: {name: loans, columns: []}}}"))

/-- The project's own settings file with a text. -/
def settings (text : String) : String × FileTree := (Config.fileName, .file (some text))

/-- A project of one schema file, with what else is in its directory, and a copy of that file. -/
def files (more : List (String × FileTree)) : FileView :=
  FileTree.find? (.directory
    [("project", .directory (tables :: more)), ("copy", .directory [tables])])

def own : AnalyzeRequest where
  project := "project"
  schema := "."

def copy : AnalyzeRequest where
  project := "copy"
  config := some "project/.schema-assoc.yaml"
  schema := "."

theorem settingsWritten {text : String} {config : Config}
    (hdecoded : Decoders.yaml.config text = some config) (hvalid : config.isValid = true) :
    SettingsWritten .yaml (files []) (files [settings text]) own copy text config [tables]
      [tables, settings text] [tables] where
  decoded := hdecoded
  valid := hvalid
  unasked := rfl
  asked := rfl
  format_eq := rfl
  coloured_eq := rfl
  earlier := FileTree.lists_find? rfl (by decide) (by decide +kernel)
  later := by
    have hdistinct : ["catalogue.yaml", Config.fileName].Nodup := by decide
    have hnames : ∀ name ∈ ["catalogue.yaml", Config.fileName], Path.IsEntryName name := by
      decide +kernel
    exact FileTree.lists_find? rfl hdistinct (List.forall_mem_map.mp hnames)
  written e := by
    have hother : tables.1 ≠ Config.fileName := by decide
    simp only [List.mem_cons, List.not_mem_nil, or_false]
    constructor
    · intro he
      obtain rfl | rfl := he
      · exact .inr ⟨rfl, hother⟩
      · exact .inl rfl
    · intro he
      obtain rfl | ⟨rfl, -⟩ := he
      · exact .inr rfl
      · exact .inl rfl
  found := rfl
  copied := FileTree.lists_find? rfl (by decide) (by decide +kernel)
  files_eq := rfl

/-- The report on two tables without a pair. -/
def report : String :=
  "=== Weak Associations ===\n\n✓ 0 weak association(s) (0 column pair(s)) found in 2 table(s)."

theorem answer_own : (own.answer .yaml (files [])).outcome = .ok report := by decide +kernel

/-- Settings that are the text of a schema too. -/
def versioned : String := "{version: 2.0, use_unique_keys: no}"

def versionedNode : Yaml.Node := .mapping
  [(.scalar .plain .untagged "version", .scalar .plain .untagged "2.0"),
    (.scalar .plain .untagged "use_unique_keys", .scalar .plain .untagged "no")]

theorem read?_versioned : Yaml.read? versioned = some versionedNode := by cbv

theorem record?_versioned {names : List String} : versionedNode.record? names = some
    ([("version", .scalar .plain .untagged "2.0"),
      ("use_unique_keys", .scalar .plain .untagged "no")].filter fun e => e.1 ∈ names) := by
  refine (Yaml.Node.record?_eq_some_iff rfl).mpr ⟨?_, ?_, rfl⟩
  · simp [Yaml.Value.isSome_ofNode?_plain]
  · intro name _
    grind

theorem config_versioned : Decoders.yaml.config versioned = some { useUniqueKeys := false } := by
  simp only [Decoders.yaml]
  rw [Config.ofYaml?, read?_versioned, Option.bind_some, Config.ofNode?, record?_versioned]
  decide +kernel

theorem schema_versioned : Decoders.yaml.schema versioned = some { version := "2.0" } := by
  simp only [Decoders.yaml]
  rw [Schema.ofYaml?, read?_versioned, Option.bind_some, Schema.ofNode?, record?_versioned]
  decide +kernel

/-- Settings that are none. -/
def plain : String := "use_unique_keys: no"

def plainNode : Yaml.Node := .mapping
  [(.scalar .plain .untagged "use_unique_keys", .scalar .plain .untagged "no")]

theorem read?_plain : Yaml.read? plain = some plainNode := by cbv

theorem config_plain : Decoders.yaml.config plain = some { useUniqueKeys := false } := by
  decide +kernel

theorem schema_plain : Decoders.yaml.schema plain = none := by
  simp only [Decoders.yaml]
  rw [Schema.ofYaml?, read?_plain, Option.bind_some]
  have hentries : plainNode.entriesByName? =
      some [("use_unique_keys", .scalar .plain .untagged "no")] := rfl
  exact Schema.ofNode?_eq_none hentries (by decide)

end Catalogue

open Catalogue in
theorem own_settings_harmless_iff_catalogue :
    SettingsWritten .yaml (files []) (files [settings versioned]) own copy versioned
      { useUniqueKeys := false } [tables] [tables, settings versioned] [tables] ∧
    (own.answer .yaml (files [])).outcome = .ok report ∧
    ∃ tables output expected, own.Reports .yaml (files []) tables output ∧
      copy.Reports .yaml (files [settings versioned]) tables expected ∧
      own.Reports .yaml (files [settings versioned]) tables expected := by
  have hwritten := settingsWritten config_versioned (by decide)
  obtain ⟨count, output, expected, hearlier, hcopy, -, -, hkept⟩ :=
    own_settings_harmless_iff hwritten ⟨report, answer_own⟩
  refine ⟨hwritten, answer_own, count, output, expected, hearlier, hcopy,
    hkept _ schema_versioned rfl fun e he hname => ?_⟩
  cases List.mem_singleton.mp he
  exact absurd hname (by decide)

open Catalogue in
/-- Valid settings end the analysis of the project that they are for. -/
theorem not_own_settings_harmless_catalogue :
    SettingsWritten .yaml (files []) (files [settings plain]) own copy plain
      { useUniqueKeys := false } [tables] [tables, settings plain] [tables] ∧
    (own.answer .yaml (files [])).outcome = .ok report ∧
    (copy.answer .yaml (files [settings plain])).outcome = .ok report ∧
    (own.answer .yaml (files [settings plain])).outcome = .error own.undecodedSettings := by
  have hwritten := settingsWritten config_plain (by decide)
  have hold : ∀ e ∈ schemaFiles (.directory [tables]),
      ∃ s, Decoders.yaml.schema.schema? e.2 = some s := by
    intro e he
    have hfiles : schemaFiles (.directory [tables]) = [tables] :=
      schemaFiles_eq_of_perm (by decide) (.refl _) (List.pairwise_singleton _ _)
    rw [hfiles, List.mem_singleton] at he
    rw [he, ← Option.isSome_iff_exists]
    decide +kernel
  exact ⟨hwritten, answer_own, by decide +kernel,
    hwritten.outcome_of_undecoded hold schema_plain⟩

end ImpliedKeys
