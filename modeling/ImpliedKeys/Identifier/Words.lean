/-!
# The words of an identifier

An identifier is read as a list of lower-case words over ASCII letters and digits. Every other
character separates words, and so does a hump, where a lower-case letter or a digit stands directly
before an upper-case letter. A run of capitals is one word.
-/
namespace ImpliedKeys.Identifier

/-- A lower-case word of an identifier, or several of them run together. -/
abbrev Word := List Char

/-- A hump: two neighbours between which one word ends and the next begins. -/
def isHump (left right : Char) : Bool :=
  (left.isLower || left.isDigit) && right.isUpper

def extendFirst (c : Char) : List Word → List Word
  | [] => [[c]]
  | w :: ws => (c :: w) :: ws

/-- The words of a text. A letter or digit joins the word that begins right after it, unless that
place is a hump, and else begins a word of its own. -/
def wordsOf : List Char → List Word
  | [] => []
  | c :: rest =>
    if c.isAlphanum then
      match rest.head? with
      | some d =>
        if d.isAlphanum && !isHump c d then extendFirst c.toLower (wordsOf rest)
        else [c.toLower] :: wordsOf rest
      | none => [[c.toLower]]
    else wordsOf rest

def words (identifier : String) : List Word := wordsOf identifier.toList

end ImpliedKeys.Identifier
