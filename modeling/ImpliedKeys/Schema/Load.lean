import ImpliedKeys.Analysis.Event
import ImpliedKeys.Files.View
import ImpliedKeys.Schema.Basic
import ImpliedKeys.Text.Quoted

/-!
# Loading schemas

A schema is loaded from one file, or from all schema files directly in a directory in the order of
their names. Each table is stored under its qualified name, whatever name its file stores it under,
and of two tables of one qualified name the later one counts. What a file's text says is decided by
a given decoder.
-/
namespace ImpliedKeys

namespace Schema

def addTables (s : Schema) (ts : List Table) : Schema := ts.foldl addTable s

def rekeyed (s : Schema) : Schema := addTables { version := s.version } s.tables.values

def defaultVersion : String := "1.0"

/-- One schema of several: it has the version of the first and the tables of all. -/
def merged (all : List Schema) : Schema :=
  addTables { version := (all.head?.map (·.version)).getD defaultVersion }
    (all.flatMap (·.tables.values))

end Schema

/-- A decoder of the texts of schema files. -/
abbrev SchemaDecoder := String → Option Schema

/-- Whether a file of that name in a directory is a schema file. -/
def isSchemaFileName (name : String) : Bool :=
  Path.extension? name = some "yaml" || Path.extension? name = some "yml"

/-- The schema files directly in a directory, in the order of their names. -/
def schemaFiles (directory : FileTree) : List (String × FileTree) :=
  (directory.entries.filter fun e => e.2.isFile && isSchemaFileName e.1).mergeSort fun e f =>
    (compare e.1 f.1).isLE

namespace SchemaDecoder

def read (decode : SchemaDecoder) (path text : String) : Except Failure Schema :=
  whileDoing ("Failed to parse YAML: " ++ Text.quoted path) <|
    match decode text with
    | some s => .ok s.rekeyed
    | none => .error { cause := .malformed "not the text of a schema" }

/-- The schema of what has been found at a path, taken as a file. -/
def readFile (decode : SchemaDecoder) (path : String) (found : FileTree) : Except Failure Schema :=
  (found.text? path).bind (decode.read path)

def readDirectory (decode : SchemaDecoder) (path : String) (directory : FileTree) :
    Except Failure (List Schema) :=
  (schemaFiles directory).mapM fun e =>
    let filePath := Path.join path e.1
    whileDoing ("Failed to parse schema file: " ++ Text.quoted filePath) <|
      decode.readFile filePath e.2

end SchemaDecoder

/-- A schema that has been loaded, and what loading it told the log. -/
structure Loaded where
  schema : Schema
  log : List Event := []
  deriving DecidableEq

namespace FileView

def loadFile (view : FileView) (decode : SchemaDecoder) (path : String) : Except Failure Loaded :=
  (view.get path).bind fun found => (decode.readFile path found).map ({ schema := · })

def loadDirectory (view : FileView) (decode : SchemaDecoder) (path : String) :
    Except Failure Loaded := do
  let found ← view.get path
  if found.isFile then .error { cause := .notADirectory path }
  else
    let all ← decode.readDirectory path found
    let schema := Schema.merged all
    return { schema, log := [.mergedDirectory all.length schema.tableCount] }

def load (view : FileView) (decode : SchemaDecoder) (path : String) : Except Failure Loaded := do
  let found ← view.get path
  if found.isFile then view.loadFile decode path else view.loadDirectory decode path

end FileView

end ImpliedKeys
