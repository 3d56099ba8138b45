import ImpliedKeys.Proofs.Schema.Merging

/-!
# What the schema files of a directory say

The schema files of a directory are read in the order of their names. Together they give the tables
of each of them; of the tables of one qualified name the last file's counts, and within one file the
one that is stored under the greatest name.
-/
namespace ImpliedKeys

section Traversal

variable {α β ε : Type} {f : α → Except ε β} {l : List α}

/-- A traversal fails with the failure of the first element that fails. -/
theorem mapM_eq_error_iff {e : ε} : l.mapM f = .error e ↔ ∃ before a after,
    l = before ++ a :: after ∧ (∀ b ∈ before, ∃ c, f b = .ok c) ∧ f a = .error e := by
  induction l with
  | nil => simp [pure, Except.pure]
  | cons a l ih =>
    rw [List.mapM_cons]
    cases ha : f a with
    | error failure =>
      constructor
      · intro h
        cases h
        exact ⟨[], a, l, rfl, nofun, ha⟩
      · intro h
        obtain ⟨before, b, after, hsplit, hbefore, hb⟩ := h
        rcases before with _ | ⟨c, before⟩
        · cases hsplit
          rw [ha] at hb
          cases hb
          rfl
        · cases hsplit
          obtain ⟨c, hc⟩ := hbefore a List.mem_cons_self
          rw [ha] at hc
          cases hc
    | ok c =>
      have hrest : (Except.ok c >>= fun d => l.mapM f >>= fun rest => pure (d :: rest)) =
          .error e ↔ l.mapM f = .error e := by
        cases l.mapM f <;> simp [bind, Except.bind, pure, Except.pure]
      rw [hrest, ih]
      constructor
      · intro h
        obtain ⟨before, b, after, rfl, hbefore, hb⟩ := h
        exact ⟨a :: before, b, after, rfl, List.forall_mem_cons.mpr ⟨⟨c, ha⟩, hbefore⟩, hb⟩
      · intro h
        obtain ⟨before, b, after, hsplit, hbefore, hb⟩ := h
        rcases before with _ | ⟨d, before⟩
        · cases hsplit
          rw [ha] at hb
          cases hb
        · cases hsplit
          exact ⟨before, b, after, rfl, (List.forall_mem_cons.mp hbefore).2, hb⟩

/-- A traversal succeeds with what the elements succeed with. -/
theorem mapM_eq_ok_iff {g : α → Option β} (hg : ∀ a b, f a = .ok b ↔ g a = some b) {r : List β} :
    l.mapM f = .ok r ↔ l.map g = r.map some := by
  induction l generalizing r with
  | nil => cases r <;> simp [pure, Except.pure]
  | cons a l ih =>
    rw [List.mapM_cons]
    cases ha : f a with
    | error failure =>
      have hnone : g a = none := by
        rw [Option.eq_none_iff_forall_ne_some]
        intro b hb
        rw [← hg, ha] at hb
        cases hb
      cases r <;> simp [bind, Except.bind, hnone]
    | ok c =>
      have hsome : g a = some c := (hg a c).mp ha
      cases hl : l.mapM f with
      | error failure =>
        have hno : ∀ rest : List β, l.map g ≠ rest.map some := fun rest h => by
          rw [← ih, hl] at h
          cases h
        cases r <;> simp [bind, Except.bind, hno]
      | ok rest =>
        cases r with
        | nil => simp [bind, Except.bind, pure, Except.pure]
        | cons d r => simp [bind, Except.bind, pure, Except.pure, hsome, ← ih, hl]

end Traversal

variable {es : List (String × FileTree)} {e : String × FileTree}

theorem mem_schemaFiles_iff : e ∈ schemaFiles (.directory es) ↔
    e ∈ es ∧ e.2.isFile = true ∧ isSchemaFileName e.1 = true := by
  simp [schemaFiles, FileTree.entries]

/-- The schema files are listed in the order of their names. -/
theorem schemaFiles_pairwise (hes : (es.map (·.1)).Nodup) :
    (schemaFiles (.directory es)).Pairwise fun e f => compare e.1 f.1 = .lt := by
  have hperm := List.mergeSort_perm (es.filter fun e => e.2.isFile && isSchemaFileName e.1)
    fun e f => (compare e.1 f.1).isLE
  have hnames : ((schemaFiles (.directory es)).map (·.1)).Nodup :=
    (hperm.map (·.1)).nodup_iff.mpr (hes.sublist (List.filter_sublist.map _))
  have hsorted : (schemaFiles (.directory es)).Pairwise fun e f => (compare e.1 f.1).isLE :=
    pairwise_isLE_mergeSort (compareOn Prod.fst) _
  refine (List.pairwise_and_iff.mpr ⟨hsorted, List.pairwise_map.mp hnames⟩).imp fun {e f} h => ?_
  obtain ⟨hle, hne⟩ := h
  cases hcompare : compare e.1 f.1 with
  | lt => rfl
  | eq => exact absurd (Std.LawfulEqOrd.eq_of_compare hcompare) hne
  | gt => simp [hcompare] at hle

/-- The schema files are listed in one order only. -/
theorem schemaFiles_eq_of_perm (hes : (es.map (·.1)).Nodup) {files : List (String × FileTree)}
    (hperm : files.Perm (es.filter fun e => e.2.isFile && isSchemaFileName e.1))
    (hordered : files.Pairwise fun e f => compare e.1 f.1 = .lt) :
    schemaFiles (.directory es) = files :=
  ((List.mergeSort_perm _ _).trans hperm.symm).eq_of_pairwise
    (fun _ _ _ _ hlt hgt => absurd hgt (not_lt_of_lt hlt)) (schemaFiles_pairwise hes) hordered

/-- The schema files of smaller names come before. -/
theorem mem_before_of_lt {before after : List (String × FileTree)} {c : String × FileTree}
    (hes : (es.map (·.1)).Nodup) (hsplit : schemaFiles (.directory es) = before ++ e :: after)
    (hc : c ∈ schemaFiles (.directory es)) (hlt : compare c.1 e.1 = .lt) : c ∈ before := by
  have hpairs := hsplit ▸ schemaFiles_pairwise hes
  have hafter := (List.pairwise_cons.mp (List.pairwise_append.mp hpairs).2.1).1
  rcases List.mem_append.mp (hsplit ▸ hc) with hin | hin
  · exact hin
  · rcases List.mem_cons.mp hin with rfl | hin
    · exact absurd hlt (not_lt_of_lt hlt)
    · exact absurd hlt (not_lt_of_lt (hafter c hin))

namespace SchemaDecoder

variable {decode : SchemaDecoder} {path : String} {found : FileTree} {all : List Schema}
  {files : List (String × FileTree)} {t : Table}

/-- What a file says, if it holds the text of a schema. -/
def schema? (decode : SchemaDecoder) : FileTree → Option Schema
  | .file (some text) => decode text
  | _ => none

/-- The tables that some files say there are. -/
def told (decode : SchemaDecoder) (files : List (String × FileTree)) : List Table :=
  files.flatMap fun e => ((decode.schema? e.2).map (·.tables.values)).getD []

theorem mem_told_iff : t ∈ decode.told files ↔
    ∃ e ∈ files, ∃ s key, decode.schema? e.2 = some s ∧ s.table? key = some t := by
  simp only [told, List.mem_flatMap]
  refine exists_congr fun e => and_congr_right fun _ => ?_
  cases decode.schema? e.2 with
  | none => simp
  | some s => simp [NameMap.mem_values_iff, Schema.table?]

theorem readFile_eq_ok_iff {s : Schema} : decode.readFile path found = .ok s ↔
    (decode.schema? found).map Schema.rekeyed = some s := by
  cases found with
  | directory es => simp [readFile, schema?, FileTree.text?, Except.bind]
  | file content =>
    cases content with
    | none => simp [readFile, schema?, FileTree.text?, Except.bind]
    | some text =>
      simp only [readFile, schema?, FileTree.text?, Except.bind, read, whileDoing_eq_ok_iff]
      cases decode text <;> simp

theorem exists_schema?_of_readFile {s : Schema} (h : decode.readFile path found = .ok s) :
    ∃ told, decode.schema? found = some told ∧ s = told.rekeyed := by
  obtain ⟨told, htold, hs⟩ := Option.map_eq_some_iff.mp (readFile_eq_ok_iff.mp h)
  exact ⟨told, htold, hs.symm⟩

theorem readDirectory_eq_ok_iff : decode.readDirectory path (.directory es) = .ok all ↔
    (schemaFiles (.directory es)).map (fun e => (decode.schema? e.2).map Schema.rekeyed) =
      all.map some :=
  mapM_eq_ok_iff fun _ _ => whileDoing_eq_ok_iff.trans readFile_eq_ok_iff

theorem readFile_eq_error_iff :
    (∃ g, decode.readFile path found = .error g) ↔ decode.schema? found = none := by
  cases hread : decode.readFile path found with
  | ok s =>
    have hsome := readFile_eq_ok_iff.mp hread
    cases hfound : decode.schema? found <;> simp_all
  | error g =>
    have hnot (s : Schema) : (decode.schema? found).map Schema.rekeyed ≠ some s := by
      rw [Ne, ← readFile_eq_ok_iff, hread]
      exact nofun
    cases hfound : decode.schema? found <;> simp_all

theorem exists_readDirectory_iff : (∃ all, decode.readDirectory path (.directory es) = .ok all) ↔
    ∀ e ∈ schemaFiles (.directory es), ∃ s, decode.schema? e.2 = some s := by
  constructor
  · intro hok e he
    obtain ⟨all, hall⟩ := hok
    have hmem : (decode.schema? e.2).map Schema.rekeyed ∈ all.map some :=
      readDirectory_eq_ok_iff.mp hall ▸ List.mem_map_of_mem he
    obtain ⟨r, -, hr⟩ := List.mem_map.mp hmem
    obtain ⟨s, hs, -⟩ := Option.map_eq_some_iff.mp hr.symm
    exact ⟨s, hs⟩
  · intro hall
    cases hread : decode.readDirectory path (.directory es) with
    | ok all => exact ⟨all, rfl⟩
    | error f =>
      obtain ⟨before, e, after, hsplit, -, he⟩ := mapM_eq_error_iff.mp hread
      obtain ⟨g, hg, -⟩ := whileDoing_eq_error_iff.mp he
      obtain ⟨s, hs⟩ := hall e (by simp [hsplit])
      rw [readFile_eq_error_iff.mp ⟨g, hg⟩] at hs
      cases hs

/-- A table is the one of its qualified name that the last file with such a table has under the
greatest name. -/
structure Latest (decode : SchemaDecoder) (files : List (String × FileTree)) (qualified : String)
    (t : Table) (e : String × FileTree) (s : Schema) (key : String) : Prop where
  listed : e ∈ files
  decoded : decode.schema? e.2 = some s
  greatest : s.LastNamed qualified t key
  last : ∀ c ∈ files, ∀ other, decode.schema? c.2 = some other → other.Names qualified →
    c = e ∨ compare c.1 e.1 = .lt

/-- A schema is what some files say together: it has the version that the first file gives, and of
the tables of one qualified name the latest. -/
structure Merges (decode : SchemaDecoder) (files : List (String × FileTree)) (s : Schema) :
    Prop where
  wellKeyed : s.WellKeyed
  hasTable_iff : ∀ qualified, s.hasTable qualified = true ↔
    ∃ t ∈ decode.told files, t.fullName = qualified
  table?_eq_some_iff : ∀ qualified t, s.table? qualified = some t ↔
    ∃ e told key, decode.Latest files qualified t e told key
  version_eq : s.version =
    ((files.head?.bind fun e => decode.schema? e.2).map (·.version)).getD "1.0"

theorem table?_merged_of_readDirectory (h : decode.readDirectory path (.directory es) = .ok all)
    (key : String) : (Schema.merged all).table? key = (schemaFiles (.directory es)).reverse.findSome? fun e =>
      (decode.schema? e.2).bind fun s => s.rekeyed.table? key := by
  have hall : all.map some = _ := (readDirectory_eq_ok_iff.mp h).symm
  have hoptions : all.reverse.findSome? (fun s => s.rekeyed.table? key) =
      (all.map some).reverse.findSome? fun r => r.bind fun s => s.rekeyed.table? key := by
    rw [← List.map_reverse, List.findSome?_map]
    rfl
  rw [Schema.table?_merged, hoptions, hall, ← List.map_reverse, List.findSome?_map]
  refine congrArg (List.findSome? · _) (funext fun e => ?_)
  rw [Function.comp_apply]
  cases decode.schema? e.2 with
  | none => rfl
  | some s => exact congrArg (·.table? key) s.wellKeyed_rekeyed.rekeyed_eq

theorem isSome_bind_table?_iff {qualified : String} :
    ((decode.schema? found).bind fun s => s.rekeyed.table? qualified).isSome = true ↔
      ∃ s, decode.schema? found = some s ∧ s.Names qualified := by
  cases decode.schema? found with
  | none => simp
  | some s => simp [Schema.isSome_table?_rekeyed]

theorem exists_told_iff {qualified : String} : (∃ t ∈ decode.told files, t.fullName = qualified) ↔
    ∃ e ∈ files, ∃ s, decode.schema? e.2 = some s ∧ s.Names qualified := by
  simp only [mem_told_iff]
  constructor
  · intro htold
    obtain ⟨t, ⟨e, he, s, key, hs, ht⟩, hname⟩ := htold
    exact ⟨e, he, s, hs, key, t, ht, hname⟩
  · intro hnamed
    obtain ⟨e, he, s, hs, key, t, ht, hname⟩ := hnamed
    exact ⟨t, ⟨e, he, s, key, hs, ht⟩, hname⟩

theorem table?_merged_eq_some_iff (hes : (es.map (·.1)).Nodup)
    (h : decode.readDirectory path (.directory es) = .ok all) (qualified : String) :
    (Schema.merged all).table? qualified = some t ↔
      ∃ e told key, decode.Latest (schemaFiles (.directory es)) qualified t e told key := by
  rw [table?_merged_of_readDirectory h,
    findSome?_reverse_eq_some_iff (schemaFiles_pairwise hes) fun _ _ => not_lt_of_lt]
  simp only [isSome_bind_table?_iff]
  constructor
  · intro hlast
    obtain ⟨e, he, hfound, hlast⟩ := hlast
    obtain ⟨s, hs, ht⟩ := Option.bind_eq_some_iff.mp hfound
    obtain ⟨key, hkey⟩ := Schema.table?_rekeyed_eq_some_iff.mp ht
    exact ⟨e, s, key, he, hs, hkey, fun c hc other ho hnames => hlast c hc ⟨other, ho, hnames⟩⟩
  · intro hlatest
    obtain ⟨e, s, key, h⟩ := hlatest
    refine ⟨e, h.listed, ?_, fun c hc hnames => ?_⟩
    · rw [h.decoded]
      exact Schema.table?_rekeyed_eq_some_iff.mpr ⟨key, h.greatest⟩
    · obtain ⟨other, ho, hnames⟩ := hnames
      exact h.last c hc other ho hnames

theorem version_merged_of_readDirectory (h : decode.readDirectory path (.directory es) = .ok all) :
    (Schema.merged all).version =
      (((schemaFiles (.directory es)).head?.bind fun e => decode.schema? e.2).map
        (·.version)).getD Schema.defaultVersion := by
  have hall := congrArg List.head? (readDirectory_eq_ok_iff.mp h)
  rw [List.head?_map, List.head?_map] at hall
  rw [Schema.version_merged]
  cases hfirst : (schemaFiles (.directory es)).head? with
  | none =>
    rw [hfirst] at hall
    rw [Option.map_eq_none_iff.mp hall.symm]
    rfl
  | some e =>
    rw [hfirst] at hall
    obtain ⟨r, hr, hread⟩ := Option.map_eq_some_iff.mp hall.symm
    obtain ⟨s, hs, hrekeyed⟩ := Option.map_eq_some_iff.mp hread.symm
    rw [hr, ← hrekeyed, Option.bind_some, hs]
    exact s.version_rekeyed

theorem merges_merged (hes : (es.map (·.1)).Nodup)
    (h : decode.readDirectory path (.directory es) = .ok all) :
    decode.Merges (schemaFiles (.directory es)) (Schema.merged all) where
  wellKeyed := Schema.wellKeyed_merged all
  hasTable_iff := fun qualified => by
    rw [Schema.hasTable_iff, ← Option.isSome_iff_exists, table?_merged_of_readDirectory h,
      List.findSome?_isSome_iff, exists_told_iff]
    simp only [List.mem_reverse, isSome_bind_table?_iff]
  table?_eq_some_iff := fun qualified _ => table?_merged_eq_some_iff hes h qualified
  version_eq := version_merged_of_readDirectory h

/-- Without two tables of one name the merged tables are just those that the files tell of. -/
theorem Merges.table?_eq_some_iff_of_distinct {s : Schema} (h : decode.Merges files s)
    (hdistinct : ∀ t ∈ decode.told files, ∀ u ∈ decode.told files, t.fullName = u.fullName → t = u)
    {key : String} : s.table? key = some t ↔ t ∈ decode.told files ∧ t.fullName = key := by
  have htold {u : Table} (hu : s.table? key = some u) :
      u ∈ decode.told files ∧ u.fullName = key := by
    obtain ⟨e, other, name, hlatest⟩ := (h.table?_eq_some_iff key u).mp hu
    exact ⟨mem_told_iff.mpr ⟨e, hlatest.listed, other, name, hlatest.decoded,
      hlatest.greatest.stored⟩, hlatest.greatest.named⟩
  refine ⟨htold, fun hmem => ?_⟩
  obtain ⟨u, hu⟩ := Schema.hasTable_iff.mp ((h.hasTable_iff key).mpr ⟨t, hmem⟩)
  obtain ⟨huTold, huName⟩ := htold hu
  rw [hdistinct t hmem.1 u huTold (hmem.2.trans huName.symm)]
  exact hu

/-- Into which files the tables are divided, and under which names they stand there, makes no
difference. -/
theorem Merges.tables_eq {others : List (String × FileTree)} {s s' : Schema}
    (h : decode.Merges files s) (h' : decode.Merges others s')
    (hdistinct : ∀ t ∈ decode.told files, ∀ u ∈ decode.told files, t.fullName = u.fullName → t = u)
    (hsame : ∀ t, t ∈ decode.told files ↔ t ∈ decode.told others) : s.tables = s'.tables := by
  have hdistinct' : ∀ t ∈ decode.told others, ∀ u ∈ decode.told others,
      t.fullName = u.fullName → t = u := fun t ht u hu =>
    hdistinct t ((hsame t).mpr ht) u ((hsame u).mpr hu)
  refine NameMap.ext fun key => Option.ext fun t => ?_
  have hhere : s.table? key = some t ↔ t ∈ decode.told files ∧ t.fullName = key :=
    h.table?_eq_some_iff_of_distinct hdistinct
  have hthere : s'.table? key = some t ↔ t ∈ decode.told others ∧ t.fullName = key :=
    h'.table?_eq_some_iff_of_distinct hdistinct'
  rw [← hsame] at hthere
  exact hhere.trans hthere.symm

theorem Merges.eq {s s' : Schema} (h : decode.Merges files s) (h' : decode.Merges files s') :
    s = s' :=
  Schema.ext (h.version_eq.trans h'.version_eq.symm) fun _ => Option.ext fun t =>
    (h.table?_eq_some_iff _ t).trans (h'.table?_eq_some_iff _ t).symm

theorem Latest.of_mem_iff {others : List (String × FileTree)} {qualified key : String}
    {e : String × FileTree} {s : Schema} (h : decode.Latest files qualified t e s key)
    (hsame : ∀ c other, decode.schema? c.2 = some other → other.Names qualified →
      (c ∈ files ↔ c ∈ others)) : decode.Latest others qualified t e s key where
  listed := (hsame e s h.decoded ⟨key, t, h.greatest.stored, h.greatest.named⟩).mp h.listed
  decoded := h.decoded
  greatest := h.greatest
  last c hc other ho hnames := h.last c ((hsame c other ho hnames).mpr hc) other ho hnames

/-- Files that tell of no table make no difference to the tables. -/
theorem Merges.tables_eq_of_telling {others : List (String × FileTree)} {s s' : Schema}
    (h : decode.Merges files s) (h' : decode.Merges others s')
    (hsame : ∀ c other, decode.schema? c.2 = some other → other.tables ≠ .empty →
      (c ∈ files ↔ c ∈ others)) : s.tables = s'.tables := by
  have hnamed {qualified : String} (c : String × FileTree) (other : Schema)
      (ho : decode.schema? c.2 = some other) (hnames : other.Names qualified) :
      c ∈ files ↔ c ∈ others := by
    refine hsame c other ho fun hempty => ?_
    obtain ⟨key, t, ht, -⟩ := hnames
    rw [Schema.table?, hempty] at ht
    cases ht
  refine NameMap.ext fun key => Option.ext fun t => ?_
  refine (h.table?_eq_some_iff key t).trans (Iff.trans ?_ (h'.table?_eq_some_iff key t).symm)
  constructor
  · intro hlatest
    obtain ⟨e, told, name, hlatest⟩ := hlatest
    exact ⟨e, told, name, hlatest.of_mem_iff hnamed⟩
  · intro hlatest
    obtain ⟨e, told, name, hlatest⟩ := hlatest
    exact ⟨e, told, name, hlatest.of_mem_iff fun c other ho hnames => (hnamed c other ho hnames).symm⟩

end SchemaDecoder

end ImpliedKeys
