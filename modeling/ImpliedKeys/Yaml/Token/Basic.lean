/-!
# Tokens

What a YAML text is made of. Where the indentation opens or closes a block collection, or a colon
turns what stands before it into a key, there is a token without characters of its own.
-/
namespace ImpliedKeys.Yaml

/-- How a scalar is written, as far as its meaning depends on that. -/
inductive Style where
  | plain
  | quoted
  | block
  deriving DecidableEq, Inhabited

/-- A tag as it is written: the abbreviation of a namespace, which may be empty, and a name. -/
structure TagName where
  handle : String
  suffix : String
  deriving DecidableEq, Inhabited

/-- What a text says about itself before a document. -/
inductive Directive where
  /-- The version of the format. -/
  | version
  /-- The namespace that a handle abbreviates. -/
  | handle (handle space : String)
  /-- Anything else, which has no effect. -/
  | reserved
  deriving DecidableEq, Inhabited

inductive Token where
  | textEnd
  | directive (d : Directive)
  | documentStart
  | documentEnd
  | blockSequenceStart
  | blockMappingStart
  | blockEnd
  | flowSequenceStart
  | flowSequenceEnd
  | flowMappingStart
  | flowMappingEnd
  /-- The dash before an item of a block sequence. -/
  | item
  /-- The comma in a flow collection. -/
  | comma
  /-- What follows is a key. -/
  | key
  /-- What follows is the value of a key. -/
  | value
  | alias (name : String)
  | anchor (name : String)
  | tag (name : TagName)
  | scalar (style : Style) (text : String)
  deriving DecidableEq, Inhabited

end ImpliedKeys.Yaml
