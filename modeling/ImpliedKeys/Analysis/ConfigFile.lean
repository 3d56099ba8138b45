import ImpliedKeys.Files.View

/-!
# Settings files

The settings for a project are read from a file if one is asked for, or if the project has one of its
own. What the file's text says is decided by a given decoder. The limit on shared leading word lists
must be small.
-/
namespace ImpliedKeys

/-- A decoder of the texts of settings files. -/
abbrev ConfigDecoder := String → Option Config

/-- The settings that a text says, or the failure to read it. -/
def ConfigDecoder.read (decode : ConfigDecoder) (text : String) : Except Failure Config :=
  match decode text with
  | some c => .ok c
  | none =>
    .error {
      activities := ["Failed to parse config file"]
      cause := .malformed "not the text of a settings file" }

namespace Config

/-- The name of the settings file that a project directory may have. -/
def fileName : String := ".schema-assoc.yaml"

def checked (c : Config) : Except Failure Config :=
  match c.refusal? with
  | none => .ok c
  | some cause => .error { cause }

end Config

namespace FileView

def loadConfig (view : FileView) (decode : ConfigDecoder) (path : String) :
    Except Failure Config := do
  let text ← view.read path
  let config ← whileDoing ("Invalid config file: " ++ path) (decode.read text)
  config.checked

/-- The settings for a project: those of the file that is asked for, or else of the project's own
settings file if it has one, or else the defaults. -/
def resolveConfig (view : FileView) (decode : ConfigDecoder) (project : String)
    (asked : Option String) : Except Failure Config :=
  let load (path : String) := whileDoing "Failed to read config file" (view.loadConfig decode path)
  match asked with
  | some path => load path
  | none =>
    let path := Path.join project Config.fileName
    if (view path).isSome then load path else .ok {}

end FileView

end ImpliedKeys
