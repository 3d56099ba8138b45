import ImpliedKeys.Json.Reader
import ImpliedKeys.Yaml.Text
import ImpliedKeys.Yaml.Token.Basic

/-!
# Tags and directives as they are written

A tag is written out between angle brackets, or as the abbreviation of a namespace and a name, or
as an exclamation mark alone. A directive may give an abbreviation its namespace.
-/
namespace ImpliedKeys.Yaml

/-- The characters of a handle and of a directive's name. -/
def isNameChar (c : Char) : Bool := c.isAlphanum || c = '_' || c = '-'

def isUriChar (c : Char) : Bool :=
  c.isAlphanum || c ∈ "-#;/?:@&=+$,_.!~*'()[]%".toList

def isTagChar (c : Char) : Bool := isUriChar c && !isFlowMark c && c ≠ '!'

/-- The byte that a percent sign and two digits stand for. -/
def escapedByte? (t : Text) : Option Nat := do
  if charAt t 0 ≠ '%' then none
  return (← Json.hexValue? (charAt t 1)) * 16 + (← Json.hexValue? (charAt t 2))

/-- The number of bytes of an escaped character, by its first byte. -/
def escapedWidth? (byte : Nat) : Option Nat :=
  if byte < 0x80 then some 1
  else if byte < 0xc0 then none
  else if byte < 0xe0 then some 2
  else if byte < 0xf0 then some 3
  else if byte < 0xf8 then some 4
  else none

/-- The later bytes of an escaped character: its number goes on with them. -/
def readContinuation (wanted code : Nat) (t : Text) : Option (Nat × Text) :=
  match wanted with
  | 0 => some (code, t)
  | wanted + 1 => do
    let byte ← escapedByte? t
    if byte < 0x80 || 0xc0 ≤ byte then none
    readContinuation wanted (code * 0x100 + byte) (t.drop 3)

/-- An escaped character. Its number is that of its bytes, one after another. -/
def readEscaped (t : Text) : Option (Char × Text) := do
  let byte ← escapedByte? t
  let width ← escapedWidth? byte
  let (code, rest) ← readContinuation (width - 1) byte (t.drop 3)
  if code.isValidChar then return (Char.ofNat code, rest) else none

/-- Characters of a kind, with escaped ones among them. Fuel bounds their number. -/
def readUri (fuel : Nat) (isPart : Char → Bool) (t : Text) : Option (List Char × Text) :=
  match fuel, t with
  | 0, _ | _, [] => some ([], t)
  | fuel + 1, m :: rest =>
    if !isPart m.char then some ([], m :: rest)
    else do
      let (c, rest) ← if m.char = '%' then readEscaped (m :: rest) else some (m.char, rest)
      let (cs, rest) ← readUri fuel isPart rest
      return (c :: cs, rest)

def readName (t : Text) : List Char × Text :=
  ((t.takeWhile fun m => isNameChar m.char).map (·.char),
    t.dropWhile fun m => isNameChar m.char)

/-- A handle: an exclamation mark, or a name between two of them, or the beginning of a tag of that
form. -/
def readHandle (t : Text) : Option (List Char × Text) :=
  if charAt t 0 ≠ '!' then none
  else
    let (name, rest) := readName (t.drop 1)
    if charAt rest 0 = '!' then some ('!' :: name ++ ['!'], rest.drop 1)
    else some ('!' :: name, rest)

/-- Whether a handle is closed by an exclamation mark of its own. -/
def isClosedHandle (handle : List Char) : Bool :=
  2 ≤ handle.length && handle.getLast? = some '!'

/-- A tag from its exclamation mark on. In a flow collection a flow character may follow it. -/
def readTag (flow : Bool) (t : Text) : Option (TagName × Text) := do
  let (tag, rest) ← if charAt t 1 = '<' then do
      let (uri, rest) ← readUri t.length isUriChar (t.drop 2)
      if charAt rest 0 ≠ '>' then none
      pure ({ handle := "", suffix := String.ofList uri : TagName }, rest.drop 1)
    else do
      let (handle, rest) ← readHandle t
      let (name, rest) ← readUri t.length isTagChar rest
      if isClosedHandle handle then
        if name.isEmpty then none
        pure ({ handle := String.ofList handle, suffix := String.ofList name }, rest)
      else
        let suffix := handle.drop 1 ++ name
        if suffix.isEmpty then pure ({ handle := "", suffix := "!" }, rest)
        else pure ({ handle := "!", suffix := String.ofList suffix }, rest)
  let next := charAt rest 0
  if isGap next || (flow && isFlowMark next) then return (tag, rest) else none

def readVersionNumber (t : Text) : Option Text :=
  let digits := t.takeWhile fun m => m.char.isDigit
  if digits.isEmpty || 9 < digits.length then none else some (t.drop digits.length)

/-- A directive after its percent sign, and the text from the end of its line on. -/
def readDirective (t : Text) : Option (Directive × Text) := do
  let (name, rest) := readName t
  if name.isEmpty || !isGap (charAt rest 0) then none
  let (d, rest) ← if name = "YAML".toList then do
      let rest ← readVersionNumber (passBlanks rest)
      if charAt rest 0 ≠ '.' then none
      pure (Directive.version, ← readVersionNumber (rest.drop 1))
    else if name = "TAG".toList then do
      let (handle, rest) ← readHandle (passBlanks rest)
      if handle ≠ ['!'] && !isClosedHandle handle then none
      let space := passBlanks rest
      let first := charAt space 0
      if first ≠ '!' && !isTagChar first then none
      let (uri, rest) ← readUri t.length isUriChar space
      if !isGap (charAt rest 0) then none
      pure (Directive.handle (String.ofList handle) (String.ofList uri), rest)
    else pure (Directive.reserved, toLineEnd rest)
  let rest ← passLineGap rest
  if endsLine (charAt rest 0) then return (d, rest) else none

end ImpliedKeys.Yaml
