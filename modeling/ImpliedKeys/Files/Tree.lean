import ImpliedKeys.Files.Path

/-!
# File trees

A file tree is a file or a directory of file trees. A walk through it follows the names along a
path.
-/
namespace ImpliedKeys

/-- A file, whose content need not be a text, or a directory. -/
inductive FileTree where
  | file (text : Option String)
  | directory (entries : List (String × FileTree))
  deriving Inhabited

namespace FileTree

def entries : FileTree → List (String × FileTree)
  | file _ => []
  | directory es => es

def isFile : FileTree → Bool
  | file _ => true
  | directory _ => false

/-- What a walk leads to that starts in `here`, after the directories `above`, the nearest first. A
walk leads on from directories alone; above the outermost directory is that directory itself. -/
def walk? (above : List FileTree) (here : FileTree) : List String → Option FileTree
  | [] => some here
  | name :: rest =>
    match here with
    | file _ => none
    | directory es =>
      if name = "" ∨ name = "." then walk? above here rest
      else if name = ".." then
        match above with
        | [] => walk? [] here rest
        | up :: above => walk? above up rest
      else
        match es.lookup name with
        | none => none
        | some next => walk? (here :: above) next rest

/-- What is found at a path that starts at this tree. -/
def find? (tree : FileTree) (path : String) : Option FileTree :=
  walk? [] tree (Path.names path)

end FileTree

end ImpliedKeys
