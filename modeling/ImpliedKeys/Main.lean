import ImpliedKeys.Command.Program

/-!
# The command line program

The files that a request needs are read first, and the request is then answered by the library.
-/
namespace ImpliedKeys.Program

/-- The text of bytes that are one. -/
def textOf (bytes : ByteArray) : Option String := String.fromUTF8? bytes

/-- What is found at a path. Of a directory only the schema files are looked at. -/
def lookAt (path : String) : IO (Option FileTree) := do
  let place := (← IO.currentDir) / path
  if ← place.isDir then
    let mut entries := []
    for entry in ← place.readDir do
      if isSchemaFileName entry.fileName && !(← entry.path.isDir) then
        let bytes ← IO.FS.readBinFile entry.path
        entries := (entry.fileName, FileTree.file (textOf bytes)) :: entries
    return some (.directory entries)
  else if ← place.pathExists then
    return some (.file (textOf (← IO.FS.readBinFile place)))
  else return none

def view (paths : List String) : IO FileView := do
  let found ← paths.mapM fun path => return (path, ← lookAt path)
  return fun path => (found.lookup path).join

def wantsColours : IO Bool := do
  if ((← IO.getEnv "CLICOLOR_FORCE").getD "0") ≠ "0" then return true
  else if (← IO.getEnv "NO_COLOR").isSome then return false
  else if (← IO.getEnv "CLICOLOR") = some "0" then return false
  else (← IO.getStdout).isTty

/-- Answers the request of a command line; the log goes to the output for errors. -/
def answer (options : CommandLine.Options) : IO Ending := do
  let request := options.request (← IO.currentDir).toString (← wantsColours)
  let answered := request.answer .yaml (← view request.paths)
  if options.verbose then
    for event in answered.log do
      if event.level ≠ .trace then IO.eprintln event.line
  return .ofOutcome answered.outcome

end ImpliedKeys.Program

def main (args : List String) : IO UInt32 := do
  let ending ← match ImpliedKeys.CommandLine.read args with
    | .ok options => ImpliedKeys.Program.answer options
    | .error stop => pure (.stopped stop)
  IO.print ending.output
  IO.eprint ending.errors
  return ending.exitCode.toUInt32
