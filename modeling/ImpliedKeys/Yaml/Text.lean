/-!
# Marked text

A YAML text is read with the place of each character at hand, because indentation decides what
belongs together. Every kind of line break is the character `\n` here, and a zero character stands
at the end of every text.
-/
namespace ImpliedKeys.Yaml

/-- A character with its place. -/
structure Mark where
  char : Char
  line : Nat
  col : Nat
  offset : Nat
  /-- Whether only blanks stand before the character on its line. -/
  leading : Bool
  deriving DecidableEq, Inhabited

abbrev Text := List Mark

def isBlank (c : Char) : Bool := c = ' ' || c = '\t'

/-- The end of a line, or of the text. -/
def endsLine (c : Char) : Bool := c = '\n' || c = '\x00'

/-- What stands on either side of a token that is set off from others. -/
def isGap (c : Char) : Bool := isBlank c || endsLine c

/-- The characters that structure a flow collection. -/
def isFlowMark (c : Char) : Bool := c = ',' || c = '[' || c = ']' || c = '{' || c = '}'

/-- The mark of the next character; there is always one. -/
def here (t : Text) : Mark := t.headD ⟨'\x00', 0, 0, 0, true⟩

def charAt (t : Text) (n : Nat) : Char := (here (t.drop n)).char

/-- Whether an indicator of one character is next: a gap follows it. -/
def isIndicator (c : Char) (t : Text) : Bool := charAt t 0 = c && isGap (charAt t 1)

/-- The marks of characters that begin at a place, and of the end of the text. -/
def marksFrom (line col offset : Nat) (leading : Bool) : List Char → Text
  | [] => [⟨'\x00', line, col, offset, leading⟩]
  | '\r' :: '\n' :: rest =>
    ⟨'\n', line, col, offset, leading⟩ :: marksFrom (line + 1) 0 (offset + 2) true rest
  | '\r' :: rest | '\n' :: rest =>
    ⟨'\n', line, col, offset, leading⟩ :: marksFrom (line + 1) 0 (offset + 1) true rest
  | c :: rest =>
    ⟨c, line, col, offset, leading⟩ ::
      marksFrom line (col + 1) (offset + c.utf8Size) (leading && isBlank c) rest

/-- The marked form of a text, without a byte order mark at its start. A zero character ends the
text. -/
def ofString (s : String) : Text :=
  match s.toList.takeWhile (· ≠ '\x00') with
  | '\ufeff' :: rest => marksFrom 0 0 0 true rest
  | cs => marksFrom 0 0 0 true cs

/-- Whether a line begins with three equal characters that are set off from what follows. -/
def atMarker (c : Char) (t : Text) : Bool :=
  (here t).col = 0 && charAt t 0 = c && charAt t 1 = c && charAt t 2 = c && isGap (charAt t 3)

def atDocumentMark (t : Text) : Bool := atMarker '-' t || atMarker '.' t

def lineOf (t : Text) : List Char := (t.takeWhile fun m => !endsLine m.char).map (·.char)

def toLineEnd (t : Text) : Text := t.dropWhile fun m => !endsLine m.char

/-- The text from the next character on that is no blank. -/
def passBlanks (t : Text) : Text := t.dropWhile fun m => isBlank m.char

/-- Whether nothing but blanks and a comment remains on the line. -/
def lineIsOver (t : Text) : Bool :=
  let c := charAt (passBlanks t) 0
  endsLine c || c = '#'

/-- Passes the blanks and the comment after a token. A comment must be set off from the token. -/
def passLineGap (t : Text) : Option Text :=
  let next := passBlanks t
  if charAt t 0 = '#' then none
  else if charAt next 0 = '#' then some (toLineEnd next)
  else some next

def hasTab (t : Text) : Bool := (t.takeWhile fun m => isBlank m.char).any (·.char = '\t')

def hasSpace (t : Text) : Bool := (t.takeWhile fun m => isBlank m.char).any (·.char = ' ')

/-- Passes blanks, line breaks and comments up to the next token, and says whether a line break was
among them. A tab left of the indentation must not be followed by a token on its line. -/
def passGap (indent : Int) (comment broken : Bool) : Text → Option (Text × Bool)
  | [] => some ([], broken)
  | m :: rest =>
    if m.char = '\n' then passGap indent false true rest
    else if m.char = '\x00' then some (m :: rest, broken)
    else if comment then passGap indent true broken rest
    else if m.char = '\t' && m.leading && m.col < indent && !lineIsOver rest then none
    else if isBlank m.char then passGap indent false broken rest
    else if m.char = '#' then passGap indent true broken rest
    else some (m :: rest, broken)

/-- Passes spaces, line breaks and comments, and says whether a space or a line break was among
them. -/
def passSpace (comment spaced : Bool) : Text → Text × Bool
  | [] => ([], spaced)
  | m :: rest =>
    if m.char = '\n' then passSpace false true rest
    else if m.char = '\x00' then (m :: rest, spaced)
    else if comment then passSpace true spaced rest
    else if m.char = ' ' then passSpace false true rest
    else if m.char = '#' then passSpace true spaced rest
    else (m :: rest, spaced)

end ImpliedKeys.Yaml
