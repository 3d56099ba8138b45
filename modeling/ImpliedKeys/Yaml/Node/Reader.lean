import ImpliedKeys.Yaml.Source

/-!
# Nodes from tokens

A node has its properties before it, in the order in which they come. A node that is missing stands
for no value, or for an empty scalar if it has properties. Fuel bounds the depth of the reading;
eight steps per character are always enough.
-/
namespace ImpliedKeys.Yaml

/-- What surrounds an entry. -/
inductive Surrounding where
  | block
  | braces
  /-- A flow sequence, in which the entry is a mapping of its own. -/
  | brackets
  deriving DecidableEq

namespace Surrounding

def isBlock : Surrounding → Bool
  | block => true
  | _ => false

/-- Whether no value is written where a token stands. -/
def endsValue : Surrounding → Token → Bool
  | block, .key | block, .value | block, .blockEnd => true
  | braces, .comma | braces, .flowMappingEnd => true
  | brackets, .comma | brackets, .flowSequenceEnd => true
  | _, _ => false

/-- Whether no key is written where a token stands. -/
def endsKey (w : Surrounding) (t : Token) : Bool := t = .value || w.endsValue t

end Surrounding

/-- The most collections that may stand in one another. -/
def maxNesting : Nat := 2000

/-- The depth inside a collection. -/
def deeper? (depth : Nat) : Option Nat := if depth < maxNesting then some (depth + 1) else none

def readAbsent (s : Source) : Node × Source := (.absent, s.grow 1)

/-- The empty scalar that stands after properties. -/
def readEmpty? (p : Properties) (s : Source) : Option (Node × Source) :=
  if p.given then some (p.scalar .plain "", s.grow 1) else none

mutual

/-- A node. Block collections may begin only where `block` says so, and a sequence that is not
indented more than its key only where `beside` does. -/
def readNode (fuel depth : Nat) (block beside : Bool) (s : Source) : Option (Node × Source) :=
  match fuel with
  | 0 => none
  | fuel + 1 => do
    let (token, s) ← s.peek?
    match token with
    | .alias name => s.next.alias? name
    | _ =>
      let before := s.size
      let (p, s) ← Properties.read? s
      let (n, s) ← readContent fuel depth block beside p s
      match p.anchor with
      | some place => return (n, s.setAnchor place n (s.size - before))
      | none => return (n, s)
termination_by structural fuel

/-- A node after its properties. -/
def readContent (fuel depth : Nat) (block beside : Bool) (p : Properties) (s : Source) :
    Option (Node × Source) :=
  match fuel with
  | 0 => none
  | fuel + 1 => do
    let (token, s) ← s.peek?
    match token with
    | .scalar style text => return (p.scalar style text, s.next.grow 1)
    | .flowSequenceStart =>
      let (items, s) ← readFlowItems fuel (← deeper? depth) true (s.next.grow 2)
      return (.sequence items, s)
    | .flowMappingStart =>
      let (entries, s) ← readFlowEntries fuel (← deeper? depth) true (s.next.grow 2)
      return (.mapping entries, s)
    | .blockSequenceStart =>
      if !block then readEmpty? p s
      else
        let (items, s) ← readItems fuel (← deeper? depth) (s.next.grow 2)
        return (.sequence items, s)
    | .blockMappingStart =>
      if !block then readEmpty? p s
      else
        let (entries, s) ← readEntries fuel (← deeper? depth) (s.next.grow 2)
        return (.mapping entries, s)
    | .item =>
      if !beside then readEmpty? p s
      else
        let (items, s) ← readItemsBeside fuel (← deeper? depth) (s.grow 2)
        return (.sequence items, s)
    | _ => readEmpty? p s
termination_by structural fuel

def readItems (fuel depth : Nat) (s : Source) : Option (List Node × Source) :=
  match fuel with
  | 0 => none
  | fuel + 1 => do
    let (token, s) ← s.peek?
    match token with
    | .blockEnd => return ([], s.next)
    | .item =>
      let (token, s) ← s.next.peek?
      let (item, s) ← if token = .item || token = .blockEnd then some (readAbsent s)
        else readNode fuel depth true false s
      let (items, s) ← readItems fuel depth s
      return (item :: items, s)
    | _ => none
termination_by structural fuel

def readItemsBeside (fuel depth : Nat) (s : Source) : Option (List Node × Source) :=
  match fuel with
  | 0 => none
  | fuel + 1 => do
    let (token, s) ← s.peek?
    match token with
    | .item =>
      let (token, s) ← s.next.peek?
      let (item, s) ← if token = .item || Surrounding.block.endsValue token then
          some (readAbsent s)
        else readNode fuel depth true false s
      let (items, s) ← readItemsBeside fuel depth s
      return (item :: items, s)
    | _ => return ([], s)
termination_by structural fuel

/-- The value of an entry, which may be missing, or missing with its colon. -/
def readValue (fuel depth : Nat) (w : Surrounding) (s : Source) : Option (Node × Source) :=
  match fuel with
  | 0 => none
  | fuel + 1 => do
    let (token, s) ← s.peek?
    if token ≠ .value then return readAbsent s
    else
      let (token, s) ← s.next.peek?
      if w.endsValue token then return readAbsent s
      else readNode fuel depth w.isBlock w.isBlock s
termination_by structural fuel

/-- An entry after what announces its key. In a flow sequence, what ends a missing key is passed
over. -/
def readEntry (fuel depth : Nat) (w : Surrounding) (s : Source) :
    Option ((Node × Node) × Source) :=
  match fuel with
  | 0 => none
  | fuel + 1 => do
    let (token, s) ← s.peek?
    let (key, s) ← if w.endsKey token then
        some (readAbsent (if w = .brackets then s.next else s))
      else readNode fuel depth w.isBlock w.isBlock s
    let (value, s) ← readValue fuel depth w s
    return ((key, value), s)
termination_by structural fuel

def readEntries (fuel depth : Nat) (s : Source) : Option (List (Node × Node) × Source) :=
  match fuel with
  | 0 => none
  | fuel + 1 => do
    let (token, s) ← s.peek?
    match token with
    | .blockEnd => return ([], s.next)
    | .key =>
      let (entry, s) ← readEntry fuel depth .block s.next
      let (entries, s) ← readEntries fuel depth s
      return (entry :: entries, s)
    | .value =>
      let (key, s) := readAbsent s
      let (value, s) ← readValue fuel depth .block s
      let (entries, s) ← readEntries fuel depth s
      return ((key, value) :: entries, s)
    | _ => none
termination_by structural fuel

/-- The entries of a flow mapping; all but the first have a comma before them. -/
def readFlowEntries (fuel depth : Nat) (first : Bool) (s : Source) :
    Option (List (Node × Node) × Source) :=
  match fuel with
  | 0 => none
  | fuel + 1 => do
    let (token, s) ← s.peek?
    if token = .flowMappingEnd then return ([], s.next)
    else
      if !first && token ≠ .comma then none
      let (token, s) ← (if first then s else s.next).peek?
      match token with
      | .flowMappingEnd => return ([], s.next)
      | .key =>
        let (entry, s) ← readEntry fuel depth .braces s.next
        let (entries, s) ← readFlowEntries fuel depth false s
        return (entry :: entries, s)
      | .value =>
        let (key, s) := readAbsent s
        let (value, s) ← readValue fuel depth .braces s
        let (entries, s) ← readFlowEntries fuel depth false s
        return ((key, value) :: entries, s)
      | _ =>
        let (key, s) ← readNode fuel depth false false s
        let (value, s) := readAbsent s
        let (entries, s) ← readFlowEntries fuel depth false s
        return ((key, value) :: entries, s)
termination_by structural fuel

/-- The items of a flow sequence; all but the first have a comma before them. An item with a key is
a mapping of one entry. -/
def readFlowItems (fuel depth : Nat) (first : Bool) (s : Source) : Option (List Node × Source) :=
  match fuel with
  | 0 => none
  | fuel + 1 => do
    let (token, s) ← s.peek?
    if token = .flowSequenceEnd then return ([], s.next)
    else
      if !first && token ≠ .comma then none
      let (token, s) ← (if first then s else s.next).peek?
      match token with
      | .flowSequenceEnd => return ([], s.next)
      | .key =>
        let (entry, s) ← readEntry fuel (← deeper? depth) .brackets (s.next.grow 2)
        let (items, s) ← readFlowItems fuel depth false s
        return (.mapping [entry] :: items, s)
      | _ =>
        let (item, s) ← readNode fuel depth false false s
        let (items, s) ← readFlowItems fuel depth false s
        return (item :: items, s)
termination_by structural fuel

end

end ImpliedKeys.Yaml
