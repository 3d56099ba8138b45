import ImpliedKeys.Yaml.Token.Basic

/-!
# Nodes

A node is a scalar, a sequence or a mapping with its entries as they are written. Two nodes are the
same key if they hold the same texts, however they are written.
-/
namespace ImpliedKeys.Yaml

/-- What a tag says about a scalar. -/
inductive TagKind where
  | untagged
  | null
  | bool
  | int
  | float
  | binary
  | text
  | timestamp
  | sequence
  | mapping
  /-- Not to be read by its look. -/
  | literal
  /-- A tag without a meaning here. -/
  | other
  deriving DecidableEq, Inhabited

def coreSpace : String := "tag:yaml.org,2002:"

/-- The kind of a tag whose handle has been replaced by its namespace. The names of the format also
count when they are local. -/
def TagKind.ofName (tag : TagName) : TagKind :=
  if tag.handle = "" && tag.suffix = "!" then .literal
  else if tag.handle ≠ coreSpace && tag.handle ≠ "!" then .other
  else
    match tag.suffix with
    | "null" => .null
    | "bool" => .bool
    | "int" => .int
    | "float" => .float
    | "binary" => .binary
    | "str" => .text
    | "timestamp" => .timestamp
    | "seq" => .sequence
    | "map" => .mapping
    | _ => .other

inductive Node where
  | scalar (style : Style) (tag : TagKind) (text : String)
  | sequence (items : List Node)
  | mapping (entries : List (Node × Node))
  deriving Inhabited

namespace Node

/-- A node that is not written. -/
def absent : Node := .scalar .plain .untagged "~"

mutual

/-- Whether two nodes are the same key. How a scalar is written does not matter. -/
def sameKey : Node → Node → Bool
  | .scalar _ k s, .scalar _ l t => k = l && s = t
  | .sequence xs, .sequence ys => sameItems xs ys
  | .mapping xs, .mapping ys => sameEntries xs ys
  | _, _ => false

def sameItems : List Node → List Node → Bool
  | [], [] => true
  | x :: xs, y :: ys => sameKey x y && sameItems xs ys
  | _, _ => false

def sameEntries : List (Node × Node) → List (Node × Node) → Bool
  | [], [] => true
  | (k, x) :: xs, (l, y) :: ys => sameKey k l && sameKey x y && sameEntries xs ys
  | _, _ => false

end

/-- Whether a scalar stands for no value, tags aside. -/
def isNull : Node → Bool
  | .scalar .plain _ s => s = "" || s = "~" || s.toList.map Char.toLower = "null".toList
  | _ => false

end Node

end ImpliedKeys.Yaml
