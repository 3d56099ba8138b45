import ImpliedKeys.Yaml.Text
import ImpliedKeys.Yaml.Token.Basic

/-!
# The tokens of a text, as far as they have been found

Tokens are found as they are asked for, and so is what is wrong with them. What is kept beside them
is where a key may have begun, because a colon further on makes one of it, and which indentation
applies, because a line further left closes block collections.
-/
namespace ImpliedKeys.Yaml

/-- A place where a key may begin. -/
structure KeyStart where
  /-- How many tokens come before the key. -/
  place : Nat
  mark : Mark
  /-- Whether nothing but a key may stand there. -/
  required : Bool

/-- An indentation that applies until a line begins further left. -/
structure Indent where
  /-- The column around it. -/
  outer : Int
  /-- Whether it belongs to a block collection, and not to the value of an entry. -/
  collection : Bool

/-- Whether an open flow sequence is in the middle of a mapping of one entry without braces. -/
inductive Pairing where
  | possible
  /-- In such a mapping, which began when so many flow collections were open. -/
  | within (depth : Nat)
  deriving DecidableEq

/-- A token that has been found, with the column where it begins. -/
structure Found where
  token : Token
  col : Nat

/-- The tokens of a text. -/
structure Tokens where
  rest : Text
  /-- More than the number of characters of the text. -/
  limit : Nat
  /-- What has been found but not taken yet. -/
  found : List Found := []
  taken : Nat := 0
  /-- Whether a key or a block collection may begin next. -/
  keyAllowed : Bool := true
  /-- Where a key may have begun, on each level of flow collections, innermost first. -/
  keys : List (Option KeyStart) := [none]
  /-- The column of the innermost indentation. -/
  indent : Int := -1
  indents : List Indent := []
  depth : Nat := 0
  /-- Where a colon may touch the value after it. -/
  adjacent : Option Nat := none
  /-- Whether a brace or a question mark has announced the mapping of the next colon in a flow
  collection. -/
  announced : Bool := false
  /-- The open flow sequences, innermost first. -/
  pairings : List Pairing := []

namespace Tokens

/-- The tokens of a marked text, none of which has been found. -/
def ofText (t : Text) : Tokens := { rest := t, limit := t.length + 2 }

def inFlow (s : Tokens) : Bool := s.depth ≠ 0

def col (s : Tokens) : Nat := (here s.rest).col

def addAt (s : Tokens) (col : Nat) (token : Token) : Tokens :=
  { s with found := s.found ++ [{ token, col }] }

def add (s : Tokens) (token : Token) : Tokens := s.addAt s.col token

/-- Puts a token before the one with so many tokens before it. -/
def insert (s : Tokens) (place col : Nat) (token : Token) : Tokens :=
  { s with found := s.found.insertIdx (place - s.taken) { token, col } }

def pass (s : Tokens) (n : Nat) : Tokens := { s with rest := s.rest.drop n }

def passLineGap? (s : Tokens) : Option Tokens :=
  (passLineGap s.rest).map fun rest => { s with rest }

def inCollection (s : Tokens) : Bool := s.indents.head?.any (·.collection)

def allowKey (s : Tokens) (allowed : Bool) : Tokens := { s with keyAllowed := allowed }

/-- Notes that a key may begin with the next character, if one may. -/
def noteKey (s : Tokens) : Tokens :=
  if s.keyAllowed then
    let key : KeyStart := {
      place := s.taken + s.found.length
      mark := here s.rest
      required := !s.inFlow && s.indent = s.col && s.inCollection }
    { s with keys := some key :: s.keys.drop 1 }
  else s

/-- Gives up the key that may have begun on this level; one that was required is an error. -/
def dropKey? (s : Tokens) : Option Tokens :=
  match s.keys with
  | some key :: outer => if key.required then none else some { s with keys := none :: outer }
  | _ => some s

/-- Whether a key that began somewhere must have ended before the next character: outside flow
collections a key is on one line and not long. -/
def isStale (s : Tokens) (key : KeyStart) : Bool :=
  let m := here s.rest
  !s.inFlow && (key.mark.line < m.line || key.mark.offset + 1024 < m.offset)

/-- Gives up the keys that must have ended; one that was required is an error. -/
def dropStale? (s : Tokens) : Option Tokens :=
  let stale (key : KeyStart) : Bool := s.isStale key
  if s.keys.any fun k => k.any fun key => stale key && key.required then none
  else some { s with keys := s.keys.map fun k => k.filter fun key => !stale key }

/-- Leaves the indentation of an entry's value. -/
def leaveEntry (s : Tokens) : Tokens :=
  match s.indents with
  | level :: outer =>
    if level.collection then s else { s with indent := level.outer, indents := outer }
  | [] => s

/-- Opens a block collection in a column, unless one is open there. Its first token is put before
the one with so many tokens before it, or is the next one. -/
def openBlock (s : Tokens) (col : Nat) (place : Option Nat) (token : Token) : Tokens :=
  if s.inFlow then s
  else
    let s := if s.indent ≤ col then s.leaveEntry else s
    if s.indent < col then
      let s := {
        s with indent := col, indents := { outer := s.indent, collection := true } :: s.indents }
      match place with
      | some n => s.insert n col token
      | none => s.addAt col token
    else s

def indentEntry (s : Tokens) : Tokens :=
  if !s.inFlow && s.inCollection then
    { s with
      indent := s.indent + 1
      indents := { outer := s.indent, collection := false } :: s.indents }
  else s

/-- The indentations that a line in a column leaves: those that remain, and how many of the others
belong to block collections. -/
def leave (col indent : Int) : List Indent → Int × List Indent × Nat
  | [] => (indent, [], 0)
  | level :: outer =>
    if indent ≤ col then (indent, level :: outer, 0)
    else
      let (indent, remaining, closed) := leave col level.outer outer
      (indent, remaining, if level.collection then closed + 1 else closed)

/-- Closes the block collections that a line in a column does not belong to. -/
def closeBlocks (s : Tokens) (col : Int) : Tokens :=
  if s.inFlow then s
  else
    let (indent, indents, closed) := leave col s.indent s.indents
    let blockEnd : Found := { token := .blockEnd, col := s.col }
    { s with indent, indents, found := s.found ++ List.replicate closed blockEnd }

/-- Leaves the indentations of values that are no block collections. -/
def leaveEntries (s : Tokens) : Tokens :=
  let left := s.indents.takeWhile fun level => !level.collection
  { s with
    indent := (left.getLast?.map (·.outer)).getD s.indent
    indents := s.indents.drop left.length }

end Tokens

end ImpliedKeys.Yaml
