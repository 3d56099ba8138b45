/-!
# Paths

A path is a text whose names are separated by slashes. It keeps the spelling that it was given; a
message shows it as it was written.
-/
namespace ImpliedKeys.Path

def isAbsolute (path : String) : Bool := path.toList.head? = some '/'

/-- A path as seen from a directory. -/
def join (directory path : String) : String :=
  if isAbsolute path then path
  else if directory.toList.getLast?.all (· = '/') then directory ++ path
  else directory ++ "/" ++ path

def extendName (c : Char) : List (List Char) → List (List Char)
  | [] => [[c]]
  | name :: rest => (c :: name) :: rest

/-- The texts between slashes, the first one first; a slash at an end has an empty text beside
it. -/
def namesOf : List Char → List (List Char)
  | [] => [[]]
  | '/' :: rest => [] :: namesOf rest
  | c :: rest => extendName c (namesOf rest)

def names (path : String) : List String := (namesOf path.toList).map String.ofList

/-- What follows the last point of a file's name, if something stands before that point. -/
def extension? (name : String) : Option String :=
  let reversed := name.toList.reverse
  let ending := reversed.takeWhile (· ≠ '.')
  match reversed.dropWhile (· ≠ '.') with
  | _ :: _ :: _ => some (String.ofList ending.reverse)
  | _ => none

end ImpliedKeys.Path
