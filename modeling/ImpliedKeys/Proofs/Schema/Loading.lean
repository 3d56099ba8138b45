import ImpliedKeys.Proofs.Files.Listing
import ImpliedKeys.Proofs.Schema.Directory
import ImpliedKeys.Schema.Yaml

/-!
# Loading a directory

What is loaded from a directory depends on its schema files alone. The first of them that holds no
schema stops the loading; else the directory is loaded as what they say together, and how the tables
are divided into files shows only where a qualified name is given twice.
-/
namespace ImpliedKeys

variable {es : List (String × FileTree)}

namespace FileView

variable {view : FileView} {decode : SchemaDecoder} {path : String} {found : FileTree}

theorem loadFile_eq (h : view path = some found) : view.loadFile decode path =
    (decode.readFile path found).map ({ schema := · }) := by
  unfold loadFile get
  rw [h]
  rfl

theorem loadDirectory_eq (h : view path = some (.directory es)) : view.loadDirectory decode path =
    (decode.readDirectory path (.directory es)).map fun all =>
      { schema := Schema.merged all,
        log := [.mergedDirectory all.length (Schema.merged all).tableCount] } := by
  unfold loadDirectory get
  rw [h]
  cases hread : decode.readDirectory path (.directory es) <;>
    simp [bind, Except.bind, Except.map, FileTree.isFile, hread, pure, Except.pure]

/-- A directory is not loaded because of the first of its schema files that holds no schema. The
failure is that of loading the file itself. -/
structure ReportsFirst (view : FileView) (decode : SchemaDecoder) (path : String)
    (files : List (String × FileTree)) (f : Failure) (e : String × FileTree) : Prop where
  listed : e ∈ files
  undecoded : decode.schema? e.2 = none
  first : ∀ c ∈ files, compare c.1 e.1 = .lt → ∃ s, decode.schema? c.2 = some s
  reported : ∃ g, view.loadFile decode (Path.join path e.1) = .error g ∧
    f = g.during ("Failed to parse schema file: " ++ Text.quoted (Path.join path e.1))

namespace Lists

theorem exists_loadDirectory_iff (h : view.Lists path es) :
    (∃ loaded, view.loadDirectory decode path = .ok loaded) ↔
      ∀ e ∈ schemaFiles (.directory es), ∃ s, decode.schema? e.2 = some s := by
  have hread : (∃ all, decode.readDirectory path (.directory es) = .ok all) ↔ _ :=
    SchemaDecoder.exists_readDirectory_iff
  rw [loadDirectory_eq h.directory, ← hread]
  cases decode.readDirectory path (.directory es) <;> simp [Except.map]

theorem reportsFirst (h : view.Lists path es) {f : Failure}
    (hf : view.loadDirectory decode path = .error f) :
    ∃ e, view.ReportsFirst decode path (schemaFiles (.directory es)) f e := by
  have hread : decode.readDirectory path (.directory es) = .error f := by
    rw [loadDirectory_eq h.directory] at hf
    cases hread : decode.readDirectory path (.directory es) <;> simp_all [Except.map]
  obtain ⟨before, e, after, hsplit, hbefore, he⟩ := mapM_eq_error_iff.mp hread
  obtain ⟨g, hg, hwrapped⟩ := whileDoing_eq_error_iff.mp he
  have hlisted : e ∈ schemaFiles (.directory es) := by simp [hsplit]
  refine ⟨e, hlisted, SchemaDecoder.readFile_eq_error_iff.mp ⟨g, hg⟩, fun c hc hlt => ?_, g, ?_,
    hwrapped⟩
  · obtain ⟨r, hr⟩ := hbefore c (mem_before_of_lt h.distinct hsplit hc hlt)
    obtain ⟨s, hs, -⟩ := SchemaDecoder.exists_schema?_of_readFile (whileDoing_eq_ok_iff.mp hr)
    exact ⟨s, hs⟩
  · rw [loadFile_eq (h.found e (mem_schemaFiles_iff.mp hlisted).1), hg]
    rfl

theorem merges (h : view.Lists path es) {loaded : Loaded}
    (hloaded : view.loadDirectory decode path = .ok loaded) :
    decode.Merges (schemaFiles (.directory es)) loaded.schema := by
  rw [loadDirectory_eq h.directory] at hloaded
  cases hread : decode.readDirectory path (.directory es) with
  | error f =>
    rw [hread] at hloaded
    cases hloaded
  | ok all =>
    rw [hread] at hloaded
    cases hloaded
    exact SchemaDecoder.merges_merged h.distinct hread

theorem load_eq (h : view.Lists path es) :
    view.load decode path = view.loadDirectory decode path := by
  unfold load get
  rw [h.directory]
  rfl

theorem exists_load_iff (h : view.Lists path es) {s : Schema} :
    (∃ loaded, view.load decode path = .ok loaded ∧ loaded.schema = s) ↔
      (∀ e ∈ schemaFiles (.directory es), ∃ told, decode.schema? e.2 = some told) ∧
        decode.Merges (schemaFiles (.directory es)) s := by
  rw [h.load_eq, ← h.exists_loadDirectory_iff]
  constructor
  · intro hload
    obtain ⟨loaded, hloaded, rfl⟩ := hload
    exact ⟨⟨loaded, hloaded⟩, h.merges hloaded⟩
  · intro hmerges
    obtain ⟨⟨loaded, hloaded⟩, hmerges⟩ := hmerges
    exact ⟨loaded, hloaded, (h.merges hloaded).eq hmerges⟩

/-- With one schema file the directory is loaded as that file is. -/
theorem loadDirectory_singleton (h : view.Lists path es) {e : String × FileTree}
    (he : schemaFiles (.directory es) = [e]) :
    (view.loadDirectory decode path).map (·.schema) =
      whileDoing ("Failed to parse schema file: " ++ Text.quoted (Path.join path e.1))
        ((view.loadFile decode (Path.join path e.1)).map (·.schema)) := by
  have hlisted : e ∈ schemaFiles (.directory es) := by simp [he]
  rw [loadDirectory_eq h.directory,
    loadFile_eq (h.found e (mem_schemaFiles_iff.mp hlisted).1)]
  unfold SchemaDecoder.readDirectory
  rw [he]
  cases hread : decode.readFile (Path.join path e.1) e.2 with
  | error g => simp [hread, whileDoing, Except.map, bind, Except.bind]
  | ok s =>
    obtain ⟨told, -, rfl⟩ := SchemaDecoder.exists_schema?_of_readFile hread
    have hmerged : Schema.merged [told.rekeyed] = told.rekeyed := by
      rw [Schema.merged_singleton, told.wellKeyed_rekeyed.rekeyed_eq]
    simp [hread, whileDoing, Except.map, bind, Except.bind, pure, Except.pure, hmerged]

end Lists

end FileView

/-- A directory is loaded from its schema files in the order of their names. That fails exactly if
one of them holds no schema, and because of the first such file. Else each qualified name in the
files has one table, the latest, and the version is the first file's. One schema file is loaded as it
is alone, and tables that share no qualified name are loaded alike however they are put into files. -/
theorem loadDirectory_exact {view : FileView} {path : String} {es : List (String × FileTree)}
    (hview : view.Lists path es) (decode : SchemaDecoder) :
    ((∀ e, e ∈ schemaFiles (.directory es) ↔
        e ∈ es ∧ e.2.isFile = true ∧ isSchemaFileName e.1 = true) ∧
      (schemaFiles (.directory es)).Pairwise fun e f => compare e.1 f.1 = .lt) ∧
    ((∃ f, view.loadDirectory decode path = .error f) ↔
      ∃ e ∈ schemaFiles (.directory es), decode.schema? e.2 = none) ∧
    (∀ f, view.loadDirectory decode path = .error f →
      ∃ e, view.ReportsFirst decode path (schemaFiles (.directory es)) f e) ∧
    (∀ loaded, view.loadDirectory decode path = .ok loaded →
      decode.Merges (schemaFiles (.directory es)) loaded.schema) ∧
    (∀ e, schemaFiles (.directory es) = [e] →
      (view.loadDirectory decode path).map (·.schema) =
        whileDoing ("Failed to parse schema file: " ++ Text.quoted (Path.join path e.1))
          ((view.loadFile decode (Path.join path e.1)).map (·.schema))) ∧
    ∀ (other : FileView) (place : String) (fs : List (String × FileTree)), other.Lists place fs →
      (∀ e ∈ schemaFiles (.directory es) ++ schemaFiles (.directory fs),
        (decode.schema? e.2).isSome = true) →
      (∀ t, t ∈ decode.told (schemaFiles (.directory es)) ↔
        t ∈ decode.told (schemaFiles (.directory fs))) →
      (∀ t ∈ decode.told (schemaFiles (.directory es)),
        ∀ u ∈ decode.told (schemaFiles (.directory es)), t.fullName = u.fullName → t = u) →
      ∃ here there, view.loadDirectory decode path = .ok here ∧
        other.loadDirectory decode place = .ok there ∧
        here.schema.tables = there.schema.tables ∧
        ∀ t, t ∈ here.schema.tables.values ↔ t ∈ decode.told (schemaFiles (.directory es)) := by
  refine ⟨⟨fun e => mem_schemaFiles_iff, schemaFiles_pairwise hview.distinct⟩,
    ?_, fun f => hview.reportsFirst, fun loaded => hview.merges,
    fun e => hview.loadDirectory_singleton, ?_⟩
  · constructor
    · intro hfails
      obtain ⟨f, hf⟩ := hfails
      obtain ⟨e, h⟩ := hview.reportsFirst hf
      exact ⟨e, h.listed, h.undecoded⟩
    · intro hundecoded
      obtain ⟨e, he, hnone⟩ := hundecoded
      cases hload : view.loadDirectory decode path with
      | error f => exact ⟨f, rfl⟩
      | ok loaded =>
        obtain ⟨s, hs⟩ := hview.exists_loadDirectory_iff.mp ⟨loaded, hload⟩ e he
        rw [hnone] at hs
        cases hs
  · intro other place fs hother hdecoded hsame hdistinct
    simp only [Option.isSome_iff_exists, List.forall_mem_append] at hdecoded
    obtain ⟨here, hhere⟩ := hview.exists_loadDirectory_iff.mpr hdecoded.1
    obtain ⟨there, hthere⟩ := hother.exists_loadDirectory_iff.mpr hdecoded.2
    have hmerges := hview.merges hhere
    refine ⟨here, there, hhere, hthere, hmerges.tables_eq (hother.merges hthere) hdistinct hsame,
      fun t => ?_⟩
    rw [NameMap.mem_values_iff]
    constructor
    · intro hstored
      obtain ⟨key, hkey⟩ := hstored
      exact ((hmerges.table?_eq_some_iff_of_distinct hdistinct).mp hkey).1
    · intro htold
      exact ⟨t.fullName, (hmerges.table?_eq_some_iff_of_distinct hdistinct).mpr ⟨htold, rfl⟩⟩

namespace Warehouse

def items : String := "{version: 1.0, tables: {x: {name: items, columns: []}}}"

def orders : String := "{version: 1.1, tables: {x: {name: orders, columns: []}}}"

def both : String :=
  "{version: 2.0, tables: {b: {name: items, columns: []}, a: {name: orders, columns: []}}}"

/-- Items stored under two names, under the greater one with an index. -/
def revisedItems : String :=
  "version: 2.1\ntables:\n  old: {name: items, columns: []}\n" ++
  "  revised: {name: items, columns: [], indexes: [{name: by_code, columns: [code]}]}\n"

def indexedItems : Table where
  name := "items"
  indexes := [{ name := "by_code", columns := ["code"] }]

def revisedSchema : Schema where
  version := "2.1"
  tables := .ofList [("old", { name := "items" }), ("revised", indexedItems)]

/-- What the texts say. -/
def said : List (String × Schema) :=
  [(items, { version := "1.0", tables := .ofList [("x", { name := "items" })] }),
    (orders, { version := "1.1", tables := .ofList [("x", { name := "orders" })] }),
    (both, {
      version := "2.0",
      tables := .ofList [("b", { name := "items" }), ("a", { name := "orders" })] }),
    (revisedItems, revisedSchema)]

def decoder : SchemaDecoder := fun text => said.lookup text

/-- The program decodes the texts so. -/
example : ∀ e ∈ said, Schema.ofYaml? e.1 = some e.2 := by decide +kernel

/-- Items and orders, in a file each. -/
def apart : List (String × FileTree) :=
  [("b.yml", .file (some orders)), ("a.yaml", .file (some items))]

/-- Both in one file, beside a file that is no schema file. -/
def together : List (String × FileTree) :=
  [("all.yaml", .file (some both)), ("notes.txt", .file none)]

/-- Items in two files. -/
def revised : List (String × FileTree) :=
  [("b.yml", .file (some revisedItems)), ("a.yaml", .file (some items))]

def files : FileView := FileTree.find? (.directory
  [("apart", .directory apart), ("together", .directory together), ("revised", .directory revised)])

theorem lists_apart : files.Lists "apart" apart :=
  FileTree.lists_find? rfl (by decide) (by decide +kernel)

theorem lists_together : files.Lists "together" together :=
  FileTree.lists_find? rfl (by decide) (by decide +kernel)

theorem lists_revised : files.Lists "revised" revised :=
  FileTree.lists_find? rfl (by decide) (by decide +kernel)

theorem schemaFiles_apart : schemaFiles (.directory apart) =
    [("a.yaml", .file (some items)), ("b.yml", .file (some orders))] :=
  schemaFiles_eq_of_perm (by decide) (.swap _ _ _) (by decide)

theorem schemaFiles_together : schemaFiles (.directory together) =
    [("all.yaml", .file (some both))] :=
  schemaFiles_eq_of_perm (by decide) (.refl _) (by decide)

theorem schemaFiles_revised : schemaFiles (.directory revised) =
    [("a.yaml", .file (some items)), ("b.yml", .file (some revisedItems))] :=
  schemaFiles_eq_of_perm (by decide) (.swap _ _ _) (by decide)

theorem told_apart : decoder.told (schemaFiles (.directory apart)) =
    [{ name := "items" }, { name := "orders" }] := by
  rw [schemaFiles_apart]
  decide +kernel

theorem told_together : decoder.told (schemaFiles (.directory together)) =
    [{ name := "orders" }, { name := "items" }] := by
  rw [schemaFiles_together]
  decide +kernel

theorem exists_latest_revised : ∃ key, decoder.Latest (schemaFiles (.directory revised)) "items"
    indexedItems ("b.yml", .file (some revisedItems)) revisedSchema key := by
  obtain ⟨key, hgreatest⟩ : ∃ key, revisedSchema.LastNamed "items" indexedItems key :=
    Schema.table?_rekeyed_eq_some_iff.mp (by decide +kernel)
  rw [schemaFiles_revised]
  refine ⟨key, by simp, by decide +kernel, hgreatest, fun c hc _ _ _ => ?_⟩
  rw [List.mem_cons, List.mem_singleton] at hc
  obtain rfl | rfl := hc
  · exact .inr (by decide)
  · exact .inl rfl

end Warehouse

open Warehouse in
/-- Items and orders are loaded alike from two files and from one. Of the items in two files those of
the later file are loaded, and there those that are stored under the greater name. -/
theorem loadDirectory_exact_warehouse :
    (∃ here there, files.loadDirectory decoder "apart" = .ok here ∧
      files.loadDirectory decoder "together" = .ok there ∧
      here.schema.tables = there.schema.tables ∧
      ∀ t, t ∈ here.schema.tables.values ↔ t = { name := "items" } ∨ t = { name := "orders" }) ∧
    ∃ loaded, files.loadDirectory decoder "revised" = .ok loaded ∧
      loaded.schema.version = "1.0" ∧ loaded.schema.table? "items" = some indexedItems := by
  constructor
  · have hdecoded : ∀ e ∈ schemaFiles (.directory apart) ++ schemaFiles (.directory together),
        (decoder.schema? e.2).isSome = true := by
      rw [schemaFiles_apart, schemaFiles_together]
      decide +kernel
    obtain ⟨-, -, -, -, -, hredistribute⟩ := loadDirectory_exact lists_apart decoder
    obtain ⟨here, there, hhere, hthere, htables, hvalues⟩ :=
      hredistribute files "together" together lists_together hdecoded
        (by simp [told_apart, told_together, or_comm]) (by rw [told_apart]; decide +kernel)
    exact ⟨here, there, hhere, hthere, htables, fun t => by simp [hvalues, told_apart]⟩
  · have hdecoded : ∀ e ∈ schemaFiles (.directory revised), ∃ s, decoder.schema? e.2 = some s := by
      simp only [schemaFiles_revised, ← Option.isSome_iff_exists]
      decide +kernel
    obtain ⟨loaded, hloaded⟩ := lists_revised.exists_loadDirectory_iff.mpr hdecoded
    obtain ⟨-, -, -, hmerges, -⟩ := loadDirectory_exact lists_revised decoder
    have hversion := (hmerges loaded hloaded).version_eq
    rw [schemaFiles_revised] at hversion
    obtain ⟨key, hlatest⟩ := exists_latest_revised
    exact ⟨loaded, hloaded, hversion.trans (by decide +kernel),
      ((hmerges loaded hloaded).table?_eq_some_iff _ _).mpr ⟨_, _, key, hlatest⟩⟩

end ImpliedKeys
