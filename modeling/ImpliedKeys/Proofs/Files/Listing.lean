import ImpliedKeys.Files.View
import Mathlib.Tactic.Common

/-!
# Directories in a view

A view lists a directory if what stands in it is found at the paths that go through it. The view
that a tree of files gives lists every directory in the tree whose entries have names of their own.
-/
namespace ImpliedKeys

namespace Path

/-- A name that stands for an entry of a directory. -/
structure IsEntryName (name : String) : Prop where
  ne_empty : name ≠ ""
  ne_here : name ≠ "."
  ne_above : name ≠ ".."
  no_slash : '/' ∉ name.toList

instance (name : String) : Decidable (IsEntryName name) :=
  decidable_of_iff (name ≠ "" ∧ name ≠ "." ∧ name ≠ ".." ∧ '/' ∉ name.toList)
    ⟨fun h => ⟨h.1, h.2.1, h.2.2.1, h.2.2.2⟩,
      fun h => ⟨h.ne_empty, h.ne_here, h.ne_above, h.no_slash⟩⟩

theorem namesOf_ne_nil (cs : List Char) : namesOf cs ≠ [] := by
  fun_cases namesOf cs with
  | case1 => exact List.cons_ne_nil _ _
  | case2 => exact List.cons_ne_nil _ _
  | case3 c rest =>
    unfold extendName
    split <;> exact List.cons_ne_nil _ _

theorem extendName_append {c : Char} {names more : List (List Char)} (h : names ≠ []) :
    extendName c (names ++ more) = extendName c names ++ more := by
  cases names with
  | nil => exact absurd rfl h
  | cons name rest => rfl

theorem namesOf_append_slash (cs rest : List Char) :
    namesOf (cs ++ '/' :: rest) = namesOf cs ++ namesOf rest := by
  fun_induction namesOf cs with
  | case1 => rfl
  | case2 cs ih =>
    rw [List.cons_append, namesOf, ih]
    rfl
  | case3 c cs hc ih =>
    rw [List.cons_append, namesOf, ih, extendName_append (namesOf_ne_nil cs)]
    exact hc

theorem namesOf_of_no_slash {cs : List Char} (h : '/' ∉ cs) : namesOf cs = [cs] := by
  fun_induction namesOf cs with
  | case1 => rfl
  | case2 cs ih => simp at h
  | case3 c cs hc ih =>
    rw [ih fun hmem => h (List.mem_cons_of_mem c hmem)]
    rfl

/-- The names along the path to an entry of a directory are those along the path to the directory,
without the empty name that a slash at its end leaves, and the name of the entry. -/
theorem names_join (path : String) {name : String} (hname : IsEntryName name) :
    ∃ front, (names path = front ∨ names path = front ++ [""]) ∧
      names (join path name) = front ++ [name] := by
  have hown : namesOf name.toList = [name.toList] := namesOf_of_no_slash hname.no_slash
  have hrelative : isAbsolute name = false := by
    refine decide_eq_false fun hslash => hname.no_slash ?_
    exact List.mem_of_mem_head? hslash
  unfold join names
  rw [hrelative, if_neg Bool.false_ne_true]
  rcases List.eq_nil_or_concat path.toList with hempty | ⟨cs, c, hcs⟩
  · refine ⟨[], .inr ?_, ?_⟩
    · simp [hempty, namesOf]
    · simp [hempty, hown]
  · by_cases hslash : c = '/'
    · refine ⟨(namesOf cs).map String.ofList, .inr ?_, ?_⟩
      · simp [hcs, hslash, namesOf_append_slash, namesOf]
      · simp [hcs, hslash, namesOf_append_slash, hown]
    · refine ⟨(namesOf path.toList).map String.ofList, .inl rfl, ?_⟩
      have hpath : (path ++ "/" ++ name).toList = path.toList ++ '/' :: name.toList := by simp
      rw [if_neg (by simp [hcs, hslash]), hpath, namesOf_append_slash, hown]
      simp

end Path

namespace FileTree

/-- A walk goes on from where its first part leads to. -/
theorem exists_walk?_append {above : List FileTree} {here found : FileTree} {names more : List String}
    (h : walk? above here (names ++ more) = some found) :
    ∃ passed stop, ∀ next, walk? above here (names ++ next) = walk? passed stop next := by
  induction names generalizing above here with
  | nil => exact ⟨above, here, fun _ => rfl⟩
  | cons name names ih =>
    cases here with
    | file text => cases h
    | directory es =>
      simp only [List.cons_append, walk?] at h ⊢
      by_cases hstay : name = "" ∨ name = "."
      · simp only [if_pos hstay] at h ⊢
        exact ih h
      · simp only [if_neg hstay] at h ⊢
        by_cases hup : name = ".."
        · simp only [if_pos hup] at h ⊢
          cases above with
          | nil => exact ih h
          | cons up above => exact ih h
        · simp only [if_neg hup] at h ⊢
          cases hentry : es.lookup name with
          | none =>
            rw [hentry] at h
            cases h
          | some next =>
            rw [hentry] at h
            exact ih h

/-- The entries of a directory are found at the paths that go through it. -/
theorem find?_join {tree : FileTree} {path name : String} {es : List (String × FileTree)}
    (h : tree.find? path = some (directory es)) (hname : Path.IsEntryName name) :
    tree.find? (Path.join path name) = es.lookup name := by
  unfold find? at h ⊢
  obtain ⟨front, hpath, hjoin⟩ := Path.names_join path hname
  have hentry (above : List FileTree) : walk? above (directory es) [name] = es.lookup name := by
    simp only [walk?, hname.ne_empty, hname.ne_here, hname.ne_above, or_self, if_false]
    cases es.lookup name <;> rfl
  rw [hjoin]
  rcases hpath with hfront | hfront
  · rw [hfront, ← List.append_nil front] at h
    obtain ⟨passed, stop, hwalk⟩ := exists_walk?_append h
    rw [hwalk] at h
    cases h
    rw [hwalk, hentry]
  · rw [hfront] at h
    obtain ⟨passed, stop, hwalk⟩ := exists_walk?_append h
    rw [hwalk] at h
    cases stop with
    | file text => cases h
    | directory others =>
      cases h
      rw [hwalk, hentry]

end FileTree

/-- What stands in a directory is found at the paths that go through it, no two things there under
one name. -/
structure FileView.Lists (view : FileView) (path : String) (es : List (String × FileTree)) :
    Prop where
  directory : view path = some (.directory es)
  distinct : (es.map (·.1)).Nodup
  found : ∀ e ∈ es, view (Path.join path e.1) = some e.2

theorem FileTree.lists_find? {tree : FileTree} {path : String} {es : List (String × FileTree)}
    (h : tree.find? path = some (.directory es)) (hdistinct : (es.map (·.1)).Nodup)
    (hnames : ∀ e ∈ es, Path.IsEntryName e.1) : FileView.Lists tree.find? path es where
  directory := h
  distinct := hdistinct
  found := fun e he =>
    (find?_join h (hnames e he)).trans ((lookup_eq_some_iff_mem hdistinct).mpr he)

end ImpliedKeys
