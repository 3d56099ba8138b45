import Mathlib.Logic.Relation
import ImpliedKeys.Proofs.Analysis.Resemblance

/-!
# Tables that say the same in other words

A table is restated by a change to neighbouring columns, indexes or constraints in place: two are
swapped, one is given other details, a composite key is split into single ones, or a part that no
association can rest on is dropped. Any chain of such changes, in either direction, leaves all that
an analysis reads of the table as it was.
-/
namespace ImpliedKeys

variable {t u v : Table}

namespace Constraint

/-- Some foreign key pairs an own column with a column of the table that it writes. -/
def Refers (cs : List Constraint) (own written referenced : String) : Prop :=
  ∃ columns others, .foreignKey columns written others ∈ cs ∧ (own, referenced) ∈ columns.zip others

end Constraint

/-- Two tables agree on all that an analysis reads of them. -/
structure Table.Alike (t u : Table) : Prop extends t.Resembles u where
  refers : ∀ own written referenced, Constraint.Refers t.constraints own written referenced ↔
    Constraint.Refers u.constraints own written referenced

namespace Table

theorem Resembles.trans (h : t.Resembles u) (h' : u.Resembles v) : t.Resembles v where
  columns n := (h.columns n).trans (h'.columns n)
  comparable {_ a c} ha hc := by
    obtain ⟨b, hb, hab⟩ := h.column? ha
    have hbc := h'.comparable hb hc
    exact (ColumnType.comparable_congr (ColumnType.comparable_refl a.type) hbc).mp hab
  firstKey n := (h.firstKey n).trans (h'.firstKey n)
  anyKey n := (h.anyKey n).trans (h'.anyKey n)
  unique n := (h.unique n).trans (h'.unique n)

namespace Alike

theorem refl (t : Table) : t.Alike t :=
  { Resembles.refl t with refers := fun _ _ _ => Iff.rfl }

theorem symm (h : t.Alike u) : u.Alike t :=
  { h.toResembles.symm with
    refers := fun own written referenced => (h.refers own written referenced).symm }

theorem trans (h : t.Alike u) (h' : u.Alike v) : t.Alike v :=
  { h.toResembles.trans h'.toResembles with
    refers := fun own written referenced =>
      (h.refers own written referenced).trans (h'.refers own written referenced) }

end Alike

end Table

/-- Neighbouring columns restated. Of two columns of one name the first counts. -/
inductive Column.Restates : List Column → List Column → Prop where
  | swap {a b} (h : a.name ≠ b.name) : Restates [a, b] [b, a]
  | details {a b} (hname : a.name = b.name) (h : a.type.comparable b.type = true) : Restates [a] [b]

inductive Index.Restates : List Index → List Index → Prop where
  | swap {i j} : Restates [i, j] [j, i]
  | rename {i : Index} (name : String) : Restates [i] [{ i with name }]
  | drop {i} (h : i.unique = false ∨ i.columns.length ≠ 1) : Restates [i] []

/-- Neighbouring constraints restated. Of two primary keys the first counts. -/
inductive Constraint.Restates : List Constraint → List Constraint → Prop where
  | swap {c d} (h : c.primaryKey? = none ∨ d.primaryKey? = none) : Restates [c, d] [d, c]
  | keyOrder {key other} (h : key.Perm other) : Restates [.primaryKey key] [.primaryKey other]
  | split {columns written others} : Restates [.foreignKey columns written others]
      ((columns.zip others).map fun e => .foreignKey [e.1] written [e.2])
  | dropCheck {columns expression} : Restates [.check columns expression] []
  | dropUnique {columns} (h : columns.length ≠ 1) : Restates [.unique columns] []

/-- One part of a table restated in its place. -/
inductive Table.Restates : Table → Table → Prop where
  | columns {t : Table} {before old new after} (h : Column.Restates old new) :
      Restates { t with columns := before ++ old ++ after }
        { t with columns := before ++ new ++ after }
  | indexes {t : Table} {before old new after} (h : Index.Restates old new) :
      Restates { t with indexes := before ++ old ++ after }
        { t with indexes := before ++ new ++ after }
  | constraints {t : Table} {before old new after} (h : Constraint.Restates old new) :
      Restates { t with constraints := before ++ old ++ after }
        { t with constraints := before ++ new ++ after }

/-- Related options of which the first present one counts. -/
theorem rel_or {α : Type} {r : α → α → Prop} {a b c d : Option α} (h : Option.Rel r a b)
    (h' : Option.Rel r c d) : Option.Rel r (a.or c) (b.or d) := by
  cases h with
  | none => rw [Option.none_or, Option.none_or]; exact h'
  | some hab => exact .some hab

theorem rel_refl {α : Type} {r : α → α → Prop} (hr : ∀ a, r a a) (a : Option α) :
    Option.Rel r a a := by
  cases a with
  | none => exact .none
  | some a => exact .some (hr a)

namespace Column.Restates

/-- The first column of a name is still there, with a comparable type. -/
theorem rel_find? {old new : List Column} (h : Column.Restates old new) (n : String) :
    Option.Rel (fun a b : Column => a.type.comparable b.type = true)
      (old.find? (·.name = n)) (new.find? (·.name = n)) := by
  cases h with
  | @swap a b h =>
    by_cases ha : a.name = n
    · have hb : b.name ≠ n := fun hb => h (ha.trans hb.symm)
      simp only [List.find?_cons, ha, hb, decide_true, decide_false]
      exact .some (ColumnType.comparable_refl _)
    · have hswap : [a, b].find? (·.name = n) = [b, a].find? (·.name = n) := by
        by_cases hb : b.name = n <;> simp [ha, hb]
      rw [hswap]
      exact rel_refl (fun _ => ColumnType.comparable_refl _) _
  | @details a b hname h =>
    by_cases ha : a.name = n
    · simp only [List.find?_cons, hname ▸ ha, ha, decide_true]
      exact .some h
    · simp only [List.find?_cons, hname ▸ ha, ha, decide_false, List.find?_nil]
      exact .none

end Column.Restates

/-- A restated index is unique by itself over the same column, or over none. -/
theorem Index.Restates.unique {old new : List Index} (h : Index.Restates old new) (n : String) :
    (∃ i ∈ old, i.unique = true ∧ i.columns = [n]) ↔
      ∃ i ∈ new, i.unique = true ∧ i.columns = [n] := by
  cases h with
  | @swap i j =>
    have hmem (k : Index) : k ∈ [i, j] ↔ k ∈ [j, i] := by simp [or_comm]
    simp only [hmem]
  | rename => simp
  | @drop i h =>
    simp only [List.mem_singleton, exists_eq_left, List.not_mem_nil, false_and, exists_false,
      iff_false, not_and]
    intro hunique hcolumns
    rcases h with hplain | hmany
    · rw [hplain] at hunique
      cases hunique
    · rw [hcolumns] at hmany
      exact hmany rfl

namespace Constraint

/-- Two lists of constraints agree on keys, unique columns and references. -/
structure Agree (cs ds : List Constraint) : Prop where
  firstKey : Option.Rel (fun key other => ∀ n : String, n ∈ key ↔ n ∈ other)
    (cs.findSome? (·.primaryKey?)) (ds.findSome? (·.primaryKey?))
  anyKey : ∀ n, (∃ key, .primaryKey key ∈ cs ∧ n ∈ key) ↔ ∃ key, .primaryKey key ∈ ds ∧ n ∈ key
  unique : ∀ n, .unique [n] ∈ cs ↔ .unique [n] ∈ ds
  refers : ∀ own written referenced,
    Refers cs own written referenced ↔ Refers ds own written referenced

namespace Agree

variable {cs ds cs' ds' : List Constraint}

theorem refl (cs : List Constraint) : Agree cs cs where
  firstKey := rel_refl (fun _ _ => Iff.rfl) _
  anyKey _ := Iff.rfl
  unique _ := Iff.rfl
  refers _ _ _ := Iff.rfl

theorem append (h : Agree cs ds) (h' : Agree cs' ds') : Agree (cs ++ cs') (ds ++ ds') where
  firstKey := by
    rw [List.findSome?_append, List.findSome?_append]
    exact rel_or h.firstKey h'.firstKey
  anyKey n := by
    simp only [List.mem_append, or_and_right, exists_or, h.anyKey, h'.anyKey]
  unique n := by
    simp only [List.mem_append, h.unique, h'.unique]
  refers own written referenced := by
    have hsplit (es fs : List Constraint) : Refers (es ++ fs) own written referenced ↔
        Refers es own written referenced ∨ Refers fs own written referenced := by
      simp only [Refers, List.mem_append, or_and_right, exists_or]
    rw [hsplit, hsplit, h.refers, h'.refers]

end Agree

section Split

variable {columns others : List String} {written : String}

theorem mem_split {c : Constraint} :
    c ∈ ((columns.zip others).map fun e => .foreignKey [e.1] written [e.2]) ↔
      ∃ own referenced, (own, referenced) ∈ columns.zip others ∧
        c = .foreignKey [own] written [referenced] := by
  rw [List.mem_map, Prod.exists]
  simp only [eq_comm]

/-- The parts of a composite key refer as the whole does. -/
theorem refers_split {own other referenced : String} :
    Refers ((columns.zip others).map fun e => .foreignKey [e.1] written [e.2])
        own other referenced ↔
      Refers [.foreignKey columns written others] own other referenced := by
  have hpart (x y : String) : (own, referenced) ∈ [x].zip [y] ↔ own = x ∧ referenced = y := by
    simp
  unfold Refers
  simp only [mem_split, List.mem_singleton]
  constructor
  · intro hrefers
    obtain ⟨_, _, ⟨x, y, hpair, hc⟩, hplace⟩ := hrefers
    obtain ⟨rfl, rfl, rfl⟩ := Constraint.foreignKey.inj hc
    obtain ⟨rfl, rfl⟩ := (hpart x y).mp hplace
    exact ⟨columns, others, rfl, hpair⟩
  · intro hrefers
    obtain ⟨_, _, hc, hpair⟩ := hrefers
    obtain ⟨rfl, rfl, rfl⟩ := Constraint.foreignKey.inj hc
    exact ⟨[own], [referenced], ⟨own, referenced, hpair, rfl⟩, (hpart _ _).mpr ⟨rfl, rfl⟩⟩

theorem agree_split : Agree [.foreignKey columns written others]
    ((columns.zip others).map fun e => .foreignKey [e.1] written [e.2]) where
  firstKey := by
    have hnone : ((columns.zip others).map fun e =>
        Constraint.foreignKey [e.1] written [e.2]).findSome? (·.primaryKey?) = none := by
      rw [List.findSome?_eq_none_iff]
      intro c hc
      obtain ⟨_, _, -, rfl⟩ := mem_split.mp hc
      rfl
    rw [hnone]
    exact .none
  anyKey n := by simp [mem_split]
  unique n := by simp [mem_split]
  refers _ _ _ := refers_split.symm

end Split

/-- The order of two constraints matters only if both are primary keys. -/
theorem agree_swap {c d : Constraint} (h : c.primaryKey? = none ∨ d.primaryKey? = none) :
    Agree [c, d] [d, c] := by
  have hmem (x : Constraint) : x ∈ [c, d] ↔ x ∈ [d, c] := by simp [or_comm]
  have hfirst : [c, d].findSome? (·.primaryKey?) = [d, c].findSome? (·.primaryKey?) := by
    rcases h with h | h
    · cases hd : d.primaryKey? <;> simp [h, hd]
    · cases hc : c.primaryKey? <;> simp [h, hc]
  refine ⟨?_, fun n => ?_, fun n => hmem _, fun own written referenced => ?_⟩
  · rw [hfirst]
    exact rel_refl (fun _ _ => Iff.rfl) _
  · simp only [hmem]
  · simp only [Refers, hmem]

theorem Restates.agree {old new : List Constraint} (h : Constraint.Restates old new) :
    Agree old new := by
  cases h with
  | swap h => exact agree_swap h
  | keyOrder h =>
    exact ⟨.some fun n => h.mem_iff, fun n => by simp [h.mem_iff], by simp, by simp [Refers]⟩
  | split => exact agree_split
  | dropCheck => exact ⟨.none, by simp, by simp, by simp [Refers]⟩
  | @dropUnique columns h =>
    refine ⟨.none, by simp, fun n => ?_, by simp [Refers]⟩
    simp only [List.mem_singleton, Constraint.unique.injEq, List.not_mem_nil, iff_false]
    rintro rfl
    exact h rfl

end Constraint

namespace Table

theorem alike_of_rel_find? {cs ds : List Column}
    (h : ∀ n, Option.Rel (fun a b : Column => a.type.comparable b.type = true)
      (cs.find? (·.name = n)) (ds.find? (·.name = n))) :
    Table.Alike { t with columns := cs } { t with columns := ds } where
  columns n := by
    have hrel := h n
    unfold hasColumn Table.column?
    cases hc : cs.find? (·.name = n) <;> cases hd : ds.find? (·.name = n) <;> simp_all
  comparable {n a b} ha hb := by
    have hrel := h n
    unfold Table.column? at ha hb
    rw [ha, hb] at hrel
    cases hrel with
    | some hab => exact hab
  firstKey _ := Iff.rfl
  anyKey _ := Iff.rfl
  unique _ := Iff.rfl
  refers _ _ _ := Iff.rfl

theorem alike_of_unique_iff {is js : List Index}
    (h : ∀ n, (∃ i ∈ is, i.unique = true ∧ i.columns = [n]) ↔
      ∃ j ∈ js, j.unique = true ∧ j.columns = [n]) :
    Table.Alike { t with indexes := is } { t with indexes := js } where
  columns _ := Iff.rfl
  comparable := (Resembles.refl t).comparable
  firstKey _ := Iff.rfl
  anyKey _ := Iff.rfl
  unique n := by
    rw [mem_uniqueColumns, mem_uniqueColumns, h]
  refers _ _ _ := Iff.rfl

/-- Tables that differ in their constraints only are alike if the constraints agree. -/
theorem alike_of_agree {cs ds : List Constraint} (h : Constraint.Agree cs ds) :
    Table.Alike { t with constraints := cs } { t with constraints := ds } where
  columns _ := Iff.rfl
  comparable := (Resembles.refl t).comparable
  firstKey n := by
    have hrel := h.firstKey
    unfold primaryKey?
    cases hc : cs.findSome? (·.primaryKey?) <;> cases hd : ds.findSome? (·.primaryKey?) <;>
      simp_all
  anyKey n := by
    rw [inPrimaryKey_iff, inPrimaryKey_iff]
    exact h.anyKey n
  unique n := by
    rw [mem_uniqueColumns, mem_uniqueColumns, h.unique]
  refers := h.refers

theorem Restates.alike (h : t.Restates u) : t.Alike u := by
  cases h with
  | columns h =>
    refine alike_of_rel_find? fun n => ?_
    have hsame (c : Column) : c.type.comparable c.type = true := ColumnType.comparable_refl c.type
    simp only [List.find?_append]
    exact rel_or (rel_or (rel_refl hsame _) (h.rel_find? n)) (rel_refl hsame _)
  | indexes h =>
    refine alike_of_unique_iff fun n => ?_
    simp only [List.mem_append, or_and_right, exists_or, h.unique n]
  | constraints h =>
    exact alike_of_agree (((Constraint.Agree.refl _).append h.agree).append (.refl _))

/-- A chain of restatements, whichever way each of them goes, keeps what an analysis reads. -/
theorem alike_of_eqvGen (h : Relation.EqvGen Table.Restates t u) : t.Alike u := by
  induction h with
  | rel t u h => exact h.alike
  | refl t => exact .refl t
  | symm t u _ ih => exact ih.symm
  | trans t u v _ _ ih ih' => exact ih.trans ih'

end Table

end ImpliedKeys
