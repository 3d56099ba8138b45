import ImpliedKeys.Yaml.Node.Basic
import ImpliedKeys.Yaml.Token.Reader

/-!
# Tokens, tags and anchors

What a document is read from: its tokens, the namespaces of its tag handles, and the nodes that have
been given an anchor. An alias stands for the node that was the last to be given its name; what
aliases repeat is counted, because a short text could stand for very much otherwise.
-/
namespace ImpliedKeys.Yaml

/-- An anchor; its node is there once it has been read. -/
structure Anchor where
  name : String
  node : Option (Node × Nat) := none

/-- What remains to be read, and what is known from what has been read. -/
structure Source where
  tokens : Tokens
  handles : List (String × String) := []
  anchors : List Anchor := []
  /-- The size of what has been read: one for each scalar and two for each collection, with what
  aliases repeat. -/
  size : Nat := 0
  repeated : Nat := 0
  aliases : Nat := 0

namespace Source

def ofString (s : String) : Source := { tokens := .ofText (Yaml.ofString s) }

def peek? (s : Source) : Option (Token × Source) := do
  let (token, tokens) ← s.tokens.peek?
  return (token, { s with tokens })

def next (s : Source) : Source := { s with tokens := s.tokens.next }

def grow (s : Source) (n : Nat) : Source := { s with size := s.size + n }

/-- The most that aliases may repeat. -/
def maxRepeated : Nat := 1000000

/-- The node that an alias stands for. -/
def alias? (s : Source) (name : String) : Option (Node × Source) := do
  let anchor ← s.anchors.find? (·.name = name)
  let (n, size) ← anchor.node
  let repeated := s.repeated + size
  if maxRepeated < repeated then none
  return (n, { s.grow size with repeated, aliases := s.aliases + 1 })

/-- Whether there are not too many aliases for the anchors they repeat. -/
def isModest (s : Source) : Bool := s.aliases < 100 || s.aliases ≤ 10 * s.anchors.length

/-- Gives a name to a node that is read next, and says how many anchors there were before. -/
def name (s : Source) (name : String) : Nat × Source :=
  (s.anchors.length, { s with anchors := { name } :: s.anchors })

/-- Gives an anchor with so many before it a node of some size. -/
def setAnchor (s : Source) (place : Nat) (n : Node) (size : Nat) : Source :=
  { s with
    anchors := s.anchors.modify (s.anchors.length - 1 - place) fun a =>
      { a with node := some (n, size) } }

/-- The kind of a tag. A handle with a name of its own must have a namespace. -/
def tagKind? (s : Source) (tag : TagName) : Option TagKind :=
  match s.handles.lookup tag.handle with
  | some handle => some (.ofName { tag with handle })
  | none =>
    if tag.handle = "!!" then some (.ofName { tag with handle := coreSpace })
    else if isClosedHandle tag.handle.toList then none
    else some (.ofName tag)

end Source

/-- Anchor and tag of a node. -/
structure Properties where
  /-- How many anchors come before. -/
  anchor : Option Nat := none
  tag : Option TagKind := none

namespace Properties

def given (p : Properties) : Bool := p.anchor.isSome || p.tag.isSome

/-- A scalar with these properties. An empty one that is quoted and has an anchor counts as
plain. -/
def scalar (p : Properties) (style : Style) (text : String) : Node :=
  let style := if p.anchor.isSome && text = "" && style = .quoted then .plain else style
  .scalar style (p.tag.getD .untagged) text

/-- The properties that are next: an anchor, a tag, or both in either order. -/
def read? (s : Source) : Option (Properties × Source) := do
  let (token, s) ← s.peek?
  match token with
  | .anchor name =>
    let (place, s) := s.next.name name
    let (token, s) ← s.peek?
    match token with
    | .tag tag =>
      let kind ← s.tagKind? tag
      return ({ anchor := some place, tag := some kind }, s.next)
    | _ => return ({ anchor := some place }, s)
  | .tag tag =>
    let kind ← s.tagKind? tag
    let (token, s) ← s.next.peek?
    match token with
    | .anchor name =>
      let (place, s) := s.next.name name
      return ({ anchor := some place, tag := some kind }, s)
    | _ => return ({ tag := some kind }, s)
  | _ => return ({}, s)

end Properties

end ImpliedKeys.Yaml
