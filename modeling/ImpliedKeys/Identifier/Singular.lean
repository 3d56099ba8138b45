import ImpliedKeys.Identifier.Words

/-!
# Singular forms

English plurals are brought to a singular by the endings alone: four irregular nouns first, then,
for words of more than three bytes, the regular endings. An ending `ies` has two singulars, `y`
(`categories`) and `ie` (`movies`).
-/
namespace ImpliedKeys.Identifier

/-- What stands before an ending, if the word has that ending. -/
def stem? (ending : String) (w : Word) : Option Word :=
  ending.toList.isSuffixOf? w

def endsWith (ending : String) (w : Word) : Bool := ending.toList.isSuffixOf w

def byteLength (w : Word) : Nat := w.foldr (fun c n => c.utf8Size + n) 0

def dropLetters (n : Nat) (w : Word) : Word := w.take (w.length - n)

/-- Plurals that follow no rule, with their singulars. -/
def irregularPlurals : List (String × String) :=
  [("people", "person"), ("children", "child"), ("men", "man"), ("mice", "mouse")]

def irregularSingular? (w : Word) : Option Word :=
  irregularPlurals.findSome? fun (plural, single) => (stem? plural w).map (· ++ single.toList)

/-- The singular of a word by its regular ending: `ies` becomes `y`; `es` is dropped after `ss`,
`x`, `ch` and `sh`; `ss`, `us` and `is` are no plural endings; else a last `s` is dropped. -/
def regularSingular (w : Word) : Word :=
  match stem? "ies" w with
  | some stem => stem ++ ['y']
  | none =>
    if ["sses", "xes", "ches", "shes"].any (endsWith · w) then dropLetters 2 w
    else if ["ss", "us", "is"].any (endsWith · w) then w
    else (stem? "s" w).getD w

/-- The singular of a word; a word of at most three bytes is one already. -/
def singular (w : Word) : Word :=
  match irregularSingular? w with
  | some s => s
  | none => if byteLength w ≤ 3 then w else regularSingular w

/-- The singulars a word may have: its singular, and the one in `ie` for a word in `ies`. -/
def singularForms (w : Word) : List Word :=
  let single := singular w
  let ieForm := dropLetters 1 w
  if 3 < byteLength w && endsWith "ies" w && ieForm ≠ single then [single, ieForm] else [single]

theorem singular_mem_singularForms (w : Word) : singular w ∈ singularForms w := by
  simp only [singularForms]
  split <;> simp

end ImpliedKeys.Identifier
