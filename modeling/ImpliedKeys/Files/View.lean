import ImpliedKeys.Failure
import ImpliedKeys.Files.Tree

/-!
# Views of files

What reads files is given a view of them, which tells what is found at a path. A tree that holds
all files gives such a view.
-/
namespace ImpliedKeys

/-- What is found at each path. -/
abbrev FileView := String → Option FileTree

def FileTree.text? (path : String) : FileTree → Except Failure String
  | .file (some text) => .ok text
  | .file none => .error { cause := .fileRead path "stream did not contain valid UTF-8" }
  | .directory _ => .error { cause := .fileRead path "Is a directory (os error 21)" }

namespace FileView

def get (view : FileView) (path : String) : Except Failure FileTree :=
  match view path with
  | some found => .ok found
  | none => .error { cause := .fileNotFound path }

def read (view : FileView) (path : String) : Except Failure String :=
  (view.get path).bind (FileTree.text? path)

end FileView

end ImpliedKeys
