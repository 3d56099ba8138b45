import ImpliedKeys.Yaml.Scalar
import ImpliedKeys.Yaml.Token.Stream
import ImpliedKeys.Yaml.Token.Tag

/-!
# Finding tokens

Each kind of token has a function that finds it where the rest of the text begins with it. A token
that may turn out to begin a key is held back until that is settled: a colon further on puts a
token before it that says so, and one that opens a mapping where none is open yet. `Tokens.peek?`
and `Tokens.next` are all that the readers of nodes use.
-/
namespace ImpliedKeys.Yaml.Tokens

/-- The end of the text. No flow collection may be open. -/
def readEnd? (s : Tokens) : Option Tokens := do
  if s.inFlow then none
  let s ← (s.closeBlocks (-1)).dropKey?
  return (s.allowKey false).add .textEnd

def readDirective? (s : Tokens) : Option Tokens := do
  let s ← (s.closeBlocks (-1)).dropKey?
  let (d, rest) ← readDirective (s.rest.drop 1)
  return { (s.allowKey false).add (.directive d) with rest }

/-- A line that starts or ends a document. Nothing but a comment may follow an end. -/
def readDocumentMark? (s : Tokens) : Option Tokens := do
  let s ← (s.closeBlocks (-1)).dropKey?
  let s := s.allowKey false
  if charAt s.rest 0 = '-' then return (s.add .documentStart).pass 3
  else
    let s ← ((s.add .documentEnd).pass 3).passLineGap?
    if endsLine (charAt s.rest 0) then return s else none

/-- The most flow collections that may be open. -/
def maxDepth : Nat := 255

def readFlowStart? (s : Tokens) (sequence : Bool) : Option Tokens := do
  let s := s.noteKey
  let col := s.col
  let s := s.indentEntry
  if maxDepth ≤ s.depth then none
  let s := { s with
    keys := none :: s.keys
    depth := s.depth + 1
    keyAllowed := true
    announced := s.announced || !sequence
    pairings := if sequence then .possible :: s.pairings else s.pairings }
  let s ← (s.pass 1).passLineGap?
  return s.addAt col (if sequence then .flowSequenceStart else .flowMappingStart)

/-- Ends the mapping without braces on the level of so many open flow collections, if there is
one. -/
def endPairing (s : Tokens) (depth : Nat) : Tokens :=
  match s.pairings with
  | p :: outer =>
    if p = .within depth then
      { s.add .flowMappingEnd with announced := false, pairings := .possible :: outer }
    else s
  | [] => s

def readFlowEnd? (s : Tokens) (sequence : Bool) : Option Tokens := do
  if !s.inFlow then none
  let s ← s.dropKey?
  let depth := s.depth
  let s := { s with depth := depth - 1, keys := s.keys.drop 1, keyAllowed := false }
  let s := if sequence then
      let s := s.endPairing depth
      { s with pairings := s.pairings.drop 1 }
    else s
  let col := s.col
  let s ← (s.pass 1).passLineGap?
  let s := if s.inFlow then { s with adjacent := some (here s.rest).offset } else s
  return s.addAt col (if sequence then .flowSequenceEnd else .flowMappingEnd)

def readComma? (s : Tokens) : Option Tokens := do
  let s ← s.dropKey?
  let s := (s.allowKey true).endPairing s.depth
  let col := s.col
  let s ← (s.pass 1).passLineGap?
  return s.addAt col .comma

/-- Whether the last token found is an anchor or a tag at the start of a line. -/
def endsInProperty (s : Tokens) : Bool :=
  match s.found.getLast? with
  | some f =>
    f.col = 0 &&
      match f.token with
      | .anchor _ | .tag _ => true
      | _ => false
  | none => false

def readItem? (s : Tokens) : Option Tokens := do
  if s.inFlow || !s.keyAllowed then none
  if s.endsInProperty && s.col = 0 && -1 < s.indent then none
  let col := s.col
  let after := s.rest.drop 1
  let s := s.openBlock col none .blockSequenceStart
  let s ← (s.pass 1).passLineGap?
  if hasTab after && isIndicator '-' s.rest then none
  let next := charAt s.rest 0
  let s := if next = '\n' || isFlowMark next then s.indentEntry else s
  let s ← s.dropKey?
  return (s.allowKey true).add .item

/-- A question mark before a key. A gap without a tab must follow. -/
def readKey? (s : Tokens) : Option Tokens := do
  if !s.inFlow && !s.keyAllowed then none
  let col := s.col
  let s := if s.inFlow then { s with announced := true }
    else s.openBlock col none .blockMappingStart
  let s ← s.dropKey?
  let (rest, spaced) := passSpace false false (s.rest.drop 1)
  if !spaced || charAt rest 0 = '\t' then none
  return { (s.allowKey !s.inFlow).addAt col .key with rest }

/-- Whether tabs alone stand between a colon and what looks like another key or item. -/
def misusesTabs (afterColon : Text) : Bool :=
  let next := charAt (passBlanks afterColon) 0
  charAt afterColon 0 = '\t' && !hasSpace afterColon && isNameChar next

/-- The colon before a value. It makes a key of what began where a key may begin; in a flow
sequence a mapping of one entry begins there. Otherwise it stands after a key of several lines, or
there is no key. -/
def readValue? (s : Tokens) : Option Tokens := do
  let colon := here s.rest
  let pairs := !s.pairings.isEmpty && !s.announced
  let key := s.keys.headD none
  let s := if pairs then { s with pairings := .within s.depth :: s.pairings.drop 1 } else s
  let after := s.rest.drop 1
  if misusesTabs after then none
  let rest ← if charAt after 0 = '\t' then passLineGap after else some after
  let s := { s with rest }
  match key with
  | some key =>
    if pairs && key.mark.line < colon.line then none
    let s := s.insert key.place key.mark.col .key
    let s := if pairs then s.insert key.place key.mark.col .flowMappingStart else s
    let s := (s.openBlock key.mark.col (some key.place) .blockMappingStart).indentEntry
    let s := { s with keys := none :: s.keys.drop 1, keyAllowed := false }
    return s.addAt colon.col .value
  | none =>
    if !s.inFlow && !s.keyAllowed then none
    let s := if pairs then s.addAt colon.col .flowMappingStart else s
    let s := (s.openBlock colon.col none .blockMappingStart).indentEntry
    return (s.allowKey !s.inFlow).addAt colon.col .value

/-- Whether a character belongs to the name of an anchor. -/
def isAnchorChar (c : Char) : Bool := !isGap c && !isFlowMark c && c ≠ '\ufeff'

/-- An anchor or an alias, which may begin a key. -/
def readAnchor? (s : Tokens) (token : String → Token) : Option Tokens := do
  let s := s.noteKey.allowKey false
  let inName (m : Mark) : Bool := isAnchorChar m.char
  let name := (s.rest.drop 1).takeWhile inName
  if name.isEmpty then none
  let s := s.add (token (String.ofList (name.map (·.char))))
  return s.pass (name.length + 1)

/-- A tag, which may begin a key. -/
def readTag? (s : Tokens) : Option Tokens := do
  let s := s.noteKey.allowKey false
  let (name, rest) ← readTag s.inFlow s.rest
  return { s.add (.tag name) with rest }

def readBlock? (s : Tokens) (literal : Bool) : Option Tokens := do
  let s := (s.noteKey.allowKey true).leaveEntries
  let (cs, rest) ← readBlock literal s.indent (s.rest.drop 1)
  return { s.add (.scalar .block (String.ofList cs)) with rest }

/-- What may follow a quoted scalar on its last line: nothing, a colon, which makes a key of it, or
in a flow collection what ends an entry. -/
def mayFollowQuoted (s : Tokens) (start : Mark) (t : Text) : Bool :=
  let m := here t
  endsLine m.char || (m.char = ':' && (s.inFlow || m.line = start.line)) ||
    (s.inFlow && (m.char = ',' || m.char = ']' || m.char = '}'))

/-- Passes blanks, line breaks and comments up to the next token. After a line break outside flow
collections a key may begin. -/
def passGap? (s : Tokens) : Option Tokens := do
  let (rest, broken) ← passGap s.indent false false s.rest
  return { s with rest, keyAllowed := s.keyAllowed || (broken && !s.inFlow) }

/-- A quoted scalar, which may begin a key. -/
def readQuoted? (s : Tokens) (double : Bool) : Option Tokens := do
  let s := s.noteKey.allowKey false
  let body := s.rest.drop 1
  let (cs, rest) ← if double then readDouble s.indent [] (.within []) body
    else readSingle s.indent [] (.within []) body
  let rest ← passLineGap rest
  if !s.mayFollowQuoted (here s.rest) rest then none
  let col := s.col
  let s ← passGap? { s with rest }
  let s := { s with adjacent := some (here s.rest).offset }
  return s.addAt col (.scalar .quoted (String.ofList cs))

/-- A plain scalar, which may begin a key. Another key may begin on a later line than its last. -/
def readPlain? (s : Tokens) : Option Tokens := do
  let s := (s.noteKey.allowKey false).leaveEntries
  let least := (s.indent + 1).toNat
  if s.inFlow && s.col < least then none
  let (cs, rest) ← readPlain s.inFlow least [] (.blanks []) s.rest
  return {
    s.add (.scalar .plain (String.ofList cs)) with
    rest
    keyAllowed := (here rest).leading }

/-- Whether a colon before a value is next. In a flow collection it may touch what ends an entry,
and after a quoted scalar or a collection any value. -/
def atValue (s : Tokens) : Bool :=
  let next := charAt s.rest 1
  charAt s.rest 0 = ':' &&
    (isGap next || (s.inFlow && (isFlowMark next || s.adjacent = some (here s.rest).offset)))

/-- Whether a colon touches an opening bracket without being allowed to. -/
def touchesOpening (s : Tokens) : Bool :=
  let next := charAt s.rest 1
  (next = '[' || next = '{') && s.adjacent ≠ some (here s.rest).offset

/-- The token that begins with the next character, which is on a line indented far enough. -/
def readToken? (s : Tokens) : Option Tokens :=
  match charAt s.rest 0 with
  | '[' => s.readFlowStart? true
  | '{' => s.readFlowStart? false
  | ']' => s.readFlowEnd? true
  | '}' => s.readFlowEnd? false
  | ',' => s.readComma?
  | '*' => s.readAnchor? .alias
  | '&' => s.readAnchor? .anchor
  | '!' => s.readTag?
  | '\'' => s.readQuoted? false
  | '"' => s.readQuoted? true
  | '%' | '@' | '\x60' => none
  | c =>
    if isIndicator '-' s.rest then s.readItem?
    else if isIndicator '?' s.rest then s.readKey?
    else if s.atValue then if s.touchesOpening then none else s.readValue?
    else if (c = '|' || c = '>') && !s.inFlow then s.readBlock? (c = '|')
    else s.readPlain?

def readMore? (s : Tokens) : Option Tokens := do
  let s ← (← s.passGap?).dropStale?
  let m := here s.rest
  let s := s.closeBlocks m.col
  if m.char = '\x00' then s.readEnd?
  else if m.col = 0 && m.char = '%' then s.readDirective?
  else if atDocumentMark s.rest then s.readDocumentMark?
  else if m.col < s.indent && !(s.inFlow && (m.char = ']' || m.char = '}' || m.char = ',')) then
    none
  else s.readToken?

/-- Whether the next token is settled: it has been found, and no colon can put another before
it. -/
def isSettled (s : Tokens) : Bool :=
  !s.found.isEmpty && !(s.keys.any fun k => k.any fun key => key.place = s.taken)

/-- Finds tokens until the next one is settled. Fuel bounds their number. -/
def settle? (fuel : Nat) (s : Tokens) : Option Tokens :=
  match fuel with
  | 0 => none
  | fuel + 1 => do
    let s ← if s.found.isEmpty then some s else s.dropStale?
    if s.isSettled then return s else settle? fuel (← s.readMore?)

def peek? (s : Tokens) : Option (Token × Tokens) := do
  let s ← settle? s.limit s
  let f ← s.found.head?
  return (f.token, s)

def next (s : Tokens) : Tokens := { s with found := s.found.drop 1, taken := s.taken + 1 }

end ImpliedKeys.Yaml.Tokens
