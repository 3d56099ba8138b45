import ImpliedKeys.Schema.Json
import Mathlib.Tactic.Common

/-!
# Reading back what has been written

A schema that has been read, in whatever form, is read again from what is written for it. The types
of columns are where that could fail: an object that is no well-formed built-in type is read as a
database-specific one, and what is written for it must not become a built-in type.
-/
namespace ImpliedKeys

namespace ColumnType

variable {t : ColumnType} {v : Json} {fields others : List (String × Json)} {kind : String}
  {ps : List (String × Json)}

/-- The type that a value stands for as a built-in one. -/
def builtinForm? (v : Json) : Option ColumnType := do
  let (tag, body) ← v.tagged? "kind"
  builtin? (← kind? tag) fun names => body.record? names

theorem ofJson?_eq (v : Json) : ofJson? v = (builtinForm? v).or (dialect? v) := rfl

@[simp]
theorem word?_wordJson (n : UInt32) : Json.word? (wordJson n) = some n := by
  have hbelow : Json.below? UInt32.size (wordJson n) = some n.toNat := by
    have hn : n.toNat < UInt32.size := n.toNat_lt_size
    simp only [Json.below?, wordJson]
    rw [if_pos (by omega), Int.toNat_natCast]
  rw [Json.word?, hbelow, Option.map_some, UInt32.ofNat_toNat]

@[simp]
theorem nullable?_word (n : Option UInt32) :
    Json.nullable? Json.word? (Json.orNull wordJson n) = some n :=
  Json.nullable?_orNull word?_wordJson (fun _ => by simp [wordJson]) n

/-- No built-in form stands for a database-specific type. -/
theorem builtin?_ne_dialect (kind : String) (record : List String → Option (Fields Json))
    (name : String) (ps : List (String × Json)) :
    builtin? kind record ≠ some (dialect name ps) := by
  unfold builtin?
  split <;> simp [Option.bind_eq_some_iff]

/-- The components of a built-in type stand beside its kind. -/
theorem builtinForm?_of_kind {rest : List (String × Json)} (hkind : kind ∈ kinds)
    (hrest : ∀ e ∈ rest, e.1 ≠ "kind") :
    builtinForm? (.obj (("kind", .str kind) :: rest)) = builtin? kind fun _ => some rest := by
  have hbody : (("kind", .str kind) :: rest).filter (fun e => e.1 ≠ "kind") = rest := by
    rw [List.filter_cons_of_neg (by simp), List.filter_eq_self]
    simpa using hrest
  have htagged : Json.tagged? "kind" (.obj (("kind", .str kind) :: rest)) =
      some (.str kind, .obj rest) := by
    simp only [Json.tagged?, lookup_cons_ite, if_true, hbody, Option.map_some]
  unfold builtinForm?
  rw [htagged]
  show (kindNamed? kind).bind _ = _
  rw [kindNamed?, if_pos hkind]
  rfl

-- A number stands here for any value that is read as it: of one that is written out, the bound of
-- a word would be counted up to.
theorem builtin?_varchar {w : Json} {n : UInt32} (hn : Json.word? w = some n) :
    (builtin? "VARCHAR" fun _ => some [("length", w)]) = some (varchar n) := by
  simp [builtin?, Fields.required?, hn]

theorem builtin?_char {w : Json} {n : UInt32} (hn : Json.word? w = some n) :
    (builtin? "CHAR" fun _ => some [("length", w)]) = some (char n) := by
  simp [builtin?, Fields.required?, hn]

theorem builtin?_decimal {w x : Json} {n m : UInt32} (hn : Json.word? w = some n)
    (hm : Json.word? x = some m) :
    (builtin? "DECIMAL" fun _ => some [("precision", w), ("scale", x)]) = some (decimal n m) := by
  simp [builtin?, Fields.required?, lookup_cons_ite, hn, hm]

theorem builtinForm?_toJson (h : t.isDialect = false) : builtinForm? t.toJson = some t := by
  cases t with
  | dialect => cases h
  | text | boolean | json | float | double | date | blob | uuid | jsonb => rfl
  | integer p =>
    refine (builtinForm?_of_kind (by decide) (by simp)).trans ?_
    simp [builtin?, Fields.optional?]
  | timestamp z =>
    refine (builtinForm?_of_kind (by decide) (by simp)).trans ?_
    simp [builtin?, Fields.optional?]
  | time z =>
    refine (builtinForm?_of_kind (by decide) (by simp)).trans ?_
    simp [builtin?, Fields.optional?]
  | varchar n =>
    exact (builtinForm?_of_kind (by decide) (by simp)).trans (builtin?_varchar (word?_wordJson n))
  | char n =>
    exact (builtinForm?_of_kind (by decide) (by simp)).trans (builtin?_char (word?_wordJson n))
  | decimal n m =>
    exact (builtinForm?_of_kind (by decide) (by simp)).trans
      (builtin?_decimal (word?_wordJson n) (word?_wordJson m))
  | enumeration name =>
    refine (builtinForm?_of_kind (by decide) (by simp)).trans ?_
    simp [builtin?, Fields.required?, Json.text?]

theorem builtinForm?_congr (hkind : fields.lookup "kind" = others.lookup "kind")
    (hrest : fields.filter (fun e => e.1 ≠ "kind") = others.filter fun e => e.1 ≠ "kind") :
    builtinForm? (.obj fields) = builtinForm? (.obj others) := by
  unfold builtinForm? Json.tagged?
  simp only [hkind, hrest]

/-- An object with a text as its kind stands for a database-specific type of that kind. -/
theorem dialect?_of_kind (h : fields.lookup "kind" = some (.str kind)) :
    dialect? (.obj fields) = some (dialect kind (fields.filter fun e => e.1 ≠ "kind")) := by
  simp only [dialect?, Fields.required?, h]
  rfl

theorem dialect?_eq_some (h : dialect? v = some t) : ∃ fields kind, v = .obj fields ∧
    fields.lookup "kind" = some (.str kind) ∧
    t = dialect kind (fields.filter fun e => e.1 ≠ "kind") := by
  cases v with
  | obj fields =>
    obtain ⟨kind, hkind, ht⟩ := Option.bind_eq_some_iff.mp h
    obtain ⟨w, hw, htext⟩ := Fields.required?_eq_some_iff.mp hkind
    cases w with
    | str s =>
      cases htext
      exact ⟨fields, kind, rfl, hw, (Option.some.inj ht).symm⟩
    | null | bool | int | real | arr | obj => cases htext
  | null | bool | int | real | str | arr => cases h

/-- Every object with a text as its kind is a type. -/
theorem exists_ofJson?_of_kind (h : fields.lookup "kind" = some (.str kind)) :
    ∃ t, ofJson? (.obj fields) = some t := by
  rw [ofJson?_eq, dialect?_of_kind h]
  cases builtinForm? (.obj fields) with
  | some t => exact ⟨t, rfl⟩
  | none => exact ⟨_, rfl⟩

/-- A database-specific type is read only from an object that is no built-in type. -/
theorem ofJson?_eq_dialect (h : ofJson? v = some (dialect kind ps)) : ∃ fields, v = .obj fields ∧
    fields.lookup "kind" = some (.str kind) ∧ ps = fields.filter (fun e => e.1 ≠ "kind") ∧
    builtinForm? v = none := by
  rw [ofJson?_eq, Option.or_eq_some_iff] at h
  rcases h with hbuiltin | ⟨hnone, hdialect⟩
  · obtain ⟨body, -, hbuiltin⟩ := Option.bind_eq_some_iff.mp hbuiltin
    obtain ⟨name, -, hbuiltin⟩ := Option.bind_eq_some_iff.mp hbuiltin
    exact absurd hbuiltin (builtin?_ne_dialect name _ kind ps)
  · obtain ⟨fields, name, rfl, hkind, ht⟩ := dialect?_eq_some hdialect
    cases ht
    exact ⟨fields, rfl, hkind, rfl, hnone⟩

/-- What is written for a database-specific type is what it was read from. -/
theorem toJson_of_ofJson?_dialect (hv : v.Canonical) (h : ofJson? v = some (dialect kind ps)) :
    (dialect kind ps).toJson = v := by
  obtain ⟨fields, rfl, hkind, rfl, -⟩ := ofJson?_eq_dialect h
  have hfields : Increasing (fields.map (·.1)) := hv.1
  let m : NameMap Json := ⟨fields, hfields⟩
  have hm : (m.erase "kind").insert "kind" (.str kind) = m := NameMap.insert_erase hkind
  exact congrArg Json.obj (congrArg NameMap.entries hm)

/-- A database-specific type is written with its kind among its parameters, and no more becomes a
built-in type by that. -/
theorem ofJson?_toJson_dialect (h : ofJson? v = some (dialect kind ps)) :
    ofJson? (dialect kind ps).toJson = some (dialect kind ps) := by
  obtain ⟨fields, rfl, hkind, rfl, hnone⟩ := ofJson?_eq_dialect h
  have hlookup : (NameMap.insertEntry "kind" (.str kind)
      (fields.filter fun e => e.1 ≠ "kind")).lookup "kind" = some (.str kind) := by
    rw [NameMap.lookup_insertEntry, if_pos rfl]
  have hrest : (NameMap.insertEntry "kind" (.str kind)
      (fields.filter fun e => e.1 ≠ "kind")).filter (fun e => e.1 ≠ "kind") =
        fields.filter fun e => e.1 ≠ "kind" := by
    rw [NameMap.filter_insertEntry, List.filter_filter]
    simp only [Bool.and_self]
  have hsame := builtinForm?_congr (hlookup.trans hkind.symm) hrest
  rw [toJson, ofJson?_eq, hsame, hnone, Option.none_or, dialect?_of_kind hlookup, hrest]

theorem ofJson?_toJson_of_builtin (h : t.isDialect = false) : ofJson? t.toJson = some t := by
  rw [ofJson?_eq, builtinForm?_toJson h, Option.some_or]

theorem ofJson?_toJson (h : ofJson? v = some t) : ofJson? t.toJson = some t := by
  cases hd : t.isDialect with
  | false => exact ofJson?_toJson_of_builtin hd
  | true =>
    cases t with
    | dialect kind ps => exact ofJson?_toJson_dialect h
    | _ => cases hd

end ColumnType

theorem Constraint.ofJson?_toJson (c : Constraint) : ofJson? c.toJson = some c := by
  cases c <;>
    simp [ofJson?, toJson, ofRecord?, Json.tagged?, Json.record?, Fields.required?,
      lookup_cons_ite]

theorem Index.ofJson?_toJson (i : Index) : ofJson? i.toJson = some i := by
  simp [ofJson?, toJson, Json.record?, Fields.required?, Fields.optional?, lookup_cons_ite]

namespace Column

theorem ofJson?_toJson {c : Column} (h : ColumnType.ofJson? c.type.toJson = some c.type) :
    ofJson? c.toJson = some c := by
  simp [ofJson?, toJson, Json.record?, Fields.required?, Fields.optional?, lookup_cons_ite, h]

theorem exists_type_of_ofJson? {v : Json} {c : Column} (h : ofJson? v = some c) :
    ∃ w, ColumnType.ofJson? w = some c.type := by
  simp only [ofJson?, bind, Option.bind_eq_some_iff, Fields.required?_eq_some_iff] at h
  obtain ⟨fields, -, name, -, type, ⟨w, -, htype⟩, nullable, -, default, -, increment, -, h⟩ := h
  cases h
  exact ⟨w, htype⟩

end Column

namespace Table

/-- What a table can be that has been read. -/
structure Readable (t : Table) : Prop where
  types : ∀ c ∈ t.columns, ∃ w, ColumnType.ofJson? w = some c.type
  attached : t.attached = .empty

theorem readable_of_ofJson? {v : Json} {t : Table} (h : ofJson? v = some t) : t.Readable := by
  simp only [ofJson?, bind, Option.bind_eq_some_iff, Fields.required?_eq_some_iff] at h
  obtain ⟨fields, -, schemaName, -, name, -, columns, ⟨w, -, hcolumns⟩, indexes, -, constraints, -,
    h⟩ := h
  cases h
  refine ⟨fun c hc => ?_, rfl⟩
  obtain ⟨x, hx⟩ := Json.exists_of_mem_list? hcolumns hc
  exact Column.exists_type_of_ofJson? hx

theorem ofJson?_toJson {t : Table} (h : t.Readable) : ofJson? t.toJson = some t := by
  have hcolumns : Json.list? Column.ofJson? (.arr (t.columns.map Column.toJson)) =
      some t.columns := by
    refine Json.list?_map fun c hc => ?_
    obtain ⟨w, hw⟩ := h.types c hc
    exact Column.ofJson?_toJson (ColumnType.ofJson?_toJson hw)
  have hindexes : Json.list? Index.ofJson? (.arr (t.indexes.map Index.toJson)) =
      some t.indexes := Json.list?_map fun i _ => i.ofJson?_toJson
  have hconstraints : Json.list? Constraint.ofJson? (.arr (t.constraints.map Constraint.toJson)) =
      some t.constraints := Json.list?_map fun k _ => k.ofJson?_toJson
  obtain ⟨schemaName, name, columns, indexes, constraints, attached⟩ := t
  obtain rfl : attached = .empty := h.attached
  cases schemaName <;>
    simp [ofJson?, toJson, Json.record?, Fields.required?, Fields.optional?, lookup_cons_ite,
      Json.nullable?, hcolumns, hindexes, hconstraints]

end Table

namespace Schema

theorem readable_of_tablesOfJson? {v : Json} {m : NameMap Table} {key : String} {t : Table}
    (h : tablesOfJson? v = some m) (ht : m.get? key = some t) : t.Readable := by
  cases v with
  | obj fields =>
    obtain ⟨entries, hentries, h⟩ := Option.bind_eq_some_iff.mp h
    cases h
    rw [NameMap.get?_ofList] at ht
    have hlisted : (key, t) ∈ entries := List.mem_reverse.mp (mem_of_lookup ht)
    obtain ⟨⟨name, w⟩, -, hread⟩ := Json.exists_of_mem_mapM hentries hlisted
    obtain ⟨u, hu, he⟩ := Option.map_eq_some_iff.mp hread
    cases he
    exact Table.readable_of_ofJson? hu
  | null | bool | int | real | str | arr => cases h

theorem tablesOfJson?_toJson {m : NameMap Table}
    (h : ∀ key t, m.get? key = some t → t.Readable) :
    tablesOfJson? (.obj (m.mapWithName fun _ t => t.toJson).entries) = some m := by
  refine Option.bind_eq_some_iff.mpr
    ⟨m.entries, Json.mapM_map_eq_some fun e he => ?_, congrArg some m.ofList_entries⟩
  have hread := Table.ofJson?_toJson (h e.1 e.2 (NameMap.get?_eq_some_iff.mpr he))
  simp only [hread, Option.map_some]

theorem readable_of_ofJson? {v : Json} {s : Schema} {key : String} {t : Table}
    (h : ofJson? v = some s) (ht : s.table? key = some t) : t.Readable := by
  simp only [ofJson?, bind, Option.bind_eq_some_iff, Fields.required?_eq_some_iff] at h
  obtain ⟨fields, -, version, -, tables, htables, h⟩ := h
  cases h
  rcases Fields.eq_or_exists_of_optional? htables with rfl | ⟨w, hw⟩
  · cases ht
  · exact readable_of_tablesOfJson? hw ht

theorem ofJson?_toJson {s : Schema} (h : ∀ key t, s.table? key = some t → t.Readable) :
    ofJson? s.toJson = some s := by
  have htables := tablesOfJson?_toJson h
  simp [ofJson?, toJson, Json.record?, Fields.required?, Fields.optional?, lookup_cons_ite, htables]

end Schema

/-- Whatever has been read as a schema, or as the type of a column, is read again from what is
written for it. A schema without attached names can be read if the types of its columns can; every
built-in type can, and every object with a text as its kind is a type. What is written for a
database-specific type is just what it was read from. -/
theorem decoding_undoes_encoding :
    (∀ v s, Schema.ofJson? v = some s → Schema.ofJson? s.toJson = some s) ∧
    (∀ s : Schema, (∀ key t, s.table? key = some t → t.Readable) →
      ∃ v, Schema.ofJson? v = some s) ∧
    (∀ v t, ColumnType.ofJson? v = some t → ColumnType.ofJson? t.toJson = some t) ∧
    (∀ t : ColumnType, t.isDialect = false → ∃ v, ColumnType.ofJson? v = some t) ∧
    (∀ fields kind, fields.lookup "kind" = some (.str kind) →
      ∃ t, ColumnType.ofJson? (.obj fields) = some t) ∧
    ∀ v kind ps, v.Canonical → ColumnType.ofJson? v = some (.dialect kind ps) →
      (ColumnType.dialect kind ps).toJson = v :=
  ⟨fun _ _ h => Schema.ofJson?_toJson fun _ _ => Schema.readable_of_ofJson? h,
    fun s h => ⟨s.toJson, Schema.ofJson?_toJson h⟩,
    fun _ _ h => ColumnType.ofJson?_toJson h,
    fun t h => ⟨t.toJson, ColumnType.ofJson?_toJson_of_builtin h⟩,
    fun _ _ h => ColumnType.exists_ofJson?_of_kind h,
    fun _ _ _ hv h => ColumnType.toJson_of_ofJson?_dialect hv h⟩

/-- The kind of a built-in type with a length that is out of its range. -/
def endless : Json := .obj [("kind", .str "VARCHAR"), ("length", .int 4294967296)]

/-- An archive in the array form, where one type is given by the place of its kind. -/
def archive : Json :=
  .arr [.str "2.0", .obj [("files", .obj [
    ("columns", .arr [.arr [.str "id", .arr [.int 0]],
      .obj [("name", .str "content"), ("type", endless)]]),
    ("name", .str "files")])]]

theorem decoding_undoes_encoding_archive :
    (∃ s, Schema.ofJson? archive = some s ∧ Schema.ofJson? s.toJson = some s) ∧
    ∃ ps, ColumnType.ofJson? endless = some (.dialect "VARCHAR" ps) ∧
      (ColumnType.dialect "VARCHAR" ps).toJson = endless := by
  obtain ⟨hschema, -, -, -, -, hdialect⟩ := decoding_undoes_encoding
  have hread : (Schema.ofJson? archive).isSome = true := by decide +kernel
  have hendless : ColumnType.ofJson? endless =
      some (.dialect "VARCHAR" [("length", .int 4294967296)]) := by decide +kernel
  have hcanonical : endless.Canonical := by
    simp [endless, Json.Canonical, Json.CanonicalFields, Increasing]
    decide
  obtain ⟨s, hs⟩ := Option.isSome_iff_exists.mp hread
  exact ⟨⟨s, hs, hschema _ s hs⟩, _, hendless, hdialect _ _ _ hcanonical hendless⟩

end ImpliedKeys
