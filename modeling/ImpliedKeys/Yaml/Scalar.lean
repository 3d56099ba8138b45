import ImpliedKeys.Json.Reader
import ImpliedKeys.Yaml.Text

/-!
# Scalars as they are written

The text of a plain scalar, of a quoted one and of a block scalar. Where a scalar goes over several
lines, a single line break becomes a blank and each further one a line break, save in literal block
scalars.
-/
namespace ImpliedKeys.Yaml

/-- Line breaks folded together. -/
def folded (breaks : Nat) : List Char :=
  if breaks = 1 then [' '] else List.replicate (breaks - 1) '\n'

/-- A pause in a plain scalar, which counts only if the scalar goes on. -/
inductive Pause where
  /-- None: the last character was no gap. -/
  | none
  /-- Blanks, last character first. -/
  | blanks (cs : List Char)
  /-- Line breaks, and whether a comment is being passed. -/
  | broken (breaks : Nat) (comment : Bool)

/-- Whether a character goes on with a plain scalar, given what follows it. -/
def isPlain (flow : Bool) (c next : Char) : Bool :=
  !isGap c && !(c = ':' && (isGap next || (flow && isFlowMark next))) && !(flow && isFlowMark c)

/-- What a pause contributes to a plain scalar, last character first. -/
def Pause.text : Pause → List Char
  | .none => []
  | .blanks cs => cs
  | .broken breaks _ => (folded breaks).reverse

/-- A plain scalar; `done` holds its characters so far, last first. On a later line it goes on in
the column `least` or beyond. After a gap a comment ends it, and in a flow collection no dash must
stand there alone. A tab left of that column must not be followed by more on its line. -/
def readPlain (flow : Bool) (least : Nat) (done : List Char) (pause : Pause) :
    Text → Option (List Char × Text)
  | [] => some (done.reverse, [])
  | m :: rest =>
    let c := m.char
    let stop : Option (List Char × Text) := some (done.reverse, m :: rest)
    match pause with
    | .none =>
      if isBlank c then readPlain flow least done (.blanks [c]) rest
      else if c = '\n' then readPlain flow least done (.broken 1 false) rest
      else if isPlain flow c (charAt rest 0) then readPlain flow least (c :: done) .none rest
      else stop
    | .blanks cs =>
      if isBlank c then readPlain flow least done (.blanks (c :: cs)) rest
      else if c = '\n' then readPlain flow least done (.broken 1 false) rest
      else if c = '#' then stop
      else if flow && c = '-' && isFlowMark (charAt rest 0) then none
      else if isPlain flow c (charAt rest 0) then
        readPlain flow least (c :: (pause.text ++ done)) .none rest
      else stop
    | .broken breaks comment =>
      if c = '\n' then readPlain flow least done (.broken (breaks + 1) false) rest
      else if c = '\x00' then stop
      else if comment then readPlain flow least done pause rest
      else if c = '\t' && m.col < least then
        if lineIsOver rest then readPlain flow least done (.broken breaks true) rest else none
      else if isBlank c then readPlain flow least done pause rest
      else if (!flow && m.col < least) || atDocumentMark (m :: rest) || c = '#' then stop
      else if flow && c = '-' && isFlowMark (charAt rest 0) then none
      else if isPlain flow c (charAt rest 0) then
        readPlain flow least (c :: (pause.text ++ done)) .none rest
      else stop

/-- Where the reading of a quoted scalar stands. -/
inductive QuoteState where
  /-- In a line, after some blanks that count only if the line goes on. -/
  | within (blanks : List Char)
  | broken (breaks : Nat)
  /-- After an escaped line break and further breaks. -/
  | joined (breaks : Nat)
  | escape
  /-- In an escape that still wants digits. -/
  | digits (wanted value : Nat)

/-- What a pause in a quoted scalar contributes once the scalar goes on, last character first. -/
def QuoteState.pause : QuoteState → List Char
  | .within blanks => blanks
  | .broken breaks => (folded breaks).reverse
  | .joined breaks => List.replicate breaks '\n'
  | .escape | .digits _ _ => []

/-- The character of a one-letter escape between double quotes. -/
def escapedChar? : Char → Option Char
  | '0' => some '\x00'
  | 'a' => some '\x07'
  | 'b' => some '\x08'
  | 't' | '\t' => some '\t'
  | 'n' => some '\n'
  | 'v' => some '\x0b'
  | 'f' => some '\x0c'
  | 'r' => some '\r'
  | 'e' => some '\x1b'
  | ' ' => some ' '
  | '"' => some '"'
  | '/' => some '/'
  | '\\' => some '\\'
  | 'N' => some '\u0085'
  | '_' => some '\u00a0'
  | 'L' => some '\u2028'
  | 'P' => some '\u2029'
  | _ => none

def escapeWidth? : Char → Option Nat
  | 'x' => some 2
  | 'u' => some 4
  | 'U' => some 8
  | _ => none

/-- The character of a number that has one. -/
def charOfNumber? (n : Nat) : Option Char := if n.isValidChar then some (Char.ofNat n) else none

/-- Whether a quoted scalar must not go on here on a later line: left of the indentation, or at a
line that starts or ends a document. -/
def leavesQuote (indent : Int) (t : Text) : Bool :=
  (here t).col < indent || atDocumentMark t

def isStrayTab (indent : Int) (m : Mark) : Bool := m.char = '\t' && m.col < indent

/-- The rest of a scalar between double quotes; `done` holds its characters so far, last first. -/
def readDouble (indent : Int) (done : List Char) (state : QuoteState) :
    Text → Option (List Char × Text)
  | [] => none
  | m :: rest =>
    let c := m.char
    if c = '\x00' then none
    else
      match state with
      | .escape =>
        if c = '\n' then readDouble indent done (.joined 0) rest
        else
          match escapeWidth? c with
          | some width => readDouble indent done (.digits width 0) rest
          | none =>
            match escapedChar? c with
            | some e => readDouble indent (e :: done) (.within []) rest
            | none => none
      | .digits wanted value =>
        match Json.hexValue? c with
        | none => none
        | some digit =>
          let value := value * 16 + digit
          if 1 < wanted then readDouble indent done (.digits (wanted - 1) value) rest
          else
            match charOfNumber? value with
            | some e => readDouble indent (e :: done) (.within []) rest
            | none => none
      | .within blanks =>
        if c = '"' then some ((blanks ++ done).reverse, rest)
        else if c = '\n' then readDouble indent done (.broken 1) rest
        else if isBlank c then readDouble indent done (.within (c :: blanks)) rest
        else if c = '\\' then readDouble indent (blanks ++ done) .escape rest
        else readDouble indent (c :: (blanks ++ done)) (.within []) rest
      | .broken breaks =>
        if c = '\n' then readDouble indent done (.broken (breaks + 1)) rest
        else if isBlank c then
          if isStrayTab indent m then none else readDouble indent done state rest
        else if leavesQuote indent (m :: rest) then none
        else if c = '"' then some ((state.pause ++ done).reverse, rest)
        else if c = '\\' then readDouble indent (state.pause ++ done) .escape rest
        else readDouble indent (c :: (state.pause ++ done)) (.within []) rest
      | .joined breaks =>
        if c = '\n' then readDouble indent done (.joined (breaks + 1)) rest
        else if isBlank c then
          if isStrayTab indent m then none else readDouble indent done state rest
        else if c = '"' && m.col = 0 && breaks = 0 then some (done.reverse, rest)
        else if leavesQuote indent (m :: rest) then none
        else if c = '"' then some ((state.pause ++ done).reverse, rest)
        else if c = '\\' then readDouble indent (state.pause ++ done) .escape rest
        else readDouble indent (c :: (state.pause ++ done)) (.within []) rest

/-- The rest of a scalar between single quotes, where a quote is written twice; `done` holds its
characters so far, last first. -/
def readSingle (indent : Int) (done : List Char) (state : QuoteState) :
    Text → Option (List Char × Text)
  | [] | [_] => none
  | m :: n :: rest =>
    let c := m.char
    if c = '\n' then
      let state := match state with
        | .broken breaks => .broken (breaks + 1)
        | _ => .broken 1
      readSingle indent done state (n :: rest)
    else if isBlank c then
      match state with
      | .broken _ =>
        if isStrayTab indent m then none else readSingle indent done state (n :: rest)
      | _ => readSingle indent done (.within (c :: state.pause)) (n :: rest)
    else
      let leaves := match state with
        | .broken _ => leavesQuote indent (m :: n :: rest)
        | _ => false
      if leaves then none
      else if c = '\'' then
        if n.char = '\'' then readSingle indent ('\'' :: (state.pause ++ done)) (.within []) rest
        else some ((state.pause ++ done).reverse, n :: rest)
      else readSingle indent (c :: (state.pause ++ done)) (.within []) (n :: rest)

/-- What becomes of the line breaks at the end of a block scalar. -/
inductive Chomping where
  | strip
  | clip
  | keep
  deriving DecidableEq

/-- The chomping and the indentation that the header of a block scalar gives, and the rest. -/
def readHeader (chomping : Option Chomping) (given : Option Nat) :
    Text → Option (Option Chomping × Option Nat × Text)
  | [] => some (chomping, given, [])
  | m :: rest =>
    if m.char = '-' || m.char = '+' then
      if chomping.isSome then none
      else readHeader (some (if m.char = '-' then .strip else .keep)) given rest
    else if m.char.isDigit then
      if given.isSome || m.char = '0' then none
      else readHeader chomping (some (m.char.toNat - '0'.toNat)) rest
    else some (chomping, given, m :: rest)

/-- Passes empty lines up to a column: the number of line breaks, with those counted before, and
the rest. -/
def passIndent (col breaks : Nat) : Text → Nat × Text
  | [] => (breaks, [])
  | m :: rest =>
    if m.char = ' ' && m.col < col then passIndent col breaks rest
    else if m.char = '\n' then passIndent col (breaks + 1) rest
    else (breaks, m :: rest)

/-- Passes lines of spaces: the column where the widest of them and of the first other line ends,
the number of line breaks, and the rest. -/
def passEmptyLines (widest breaks : Nat) : Text → Nat × Nat × Text
  | [] => (widest, breaks, [])
  | m :: rest =>
    if m.char = ' ' then passEmptyLines widest breaks rest
    else
      let widest := max widest m.col
      if m.char = '\n' then passEmptyLines widest (breaks + 1) rest
      else (widest, breaks, m :: rest)

/-- A line of a block scalar without its indentation, and the number of line breaks after it, which
is zero at the end of the text. -/
structure BlockLine where
  text : List Char
  breaks : Nat

/-- The lines of a block scalar whose lines begin at a column. Fuel bounds their number. -/
def readBlockLines (fuel col : Nat) (t : Text) : List BlockLine × Text :=
  match fuel with
  | 0 => ([], t)
  | fuel + 1 =>
    if (here t).col ≠ col || charAt t 0 = '\x00' || (col = 0 && atDocumentMark t) then ([], t)
    else
      let rest := toLineEnd t
      let (breaks, next) := match rest with
        | [] => (0, [])
        | m :: rest => if m.char = '\x00' then (0, [m]) else passIndent col 1 rest
      let (more, after) := readBlockLines fuel col next
      ({ text := lineOf t, breaks } :: more, after)

/-- The lines of a block scalar put together, the breaks at its end apart. In a folded scalar a
single break between two lines that do not begin with a blank becomes a blank. -/
def joinLines (literal : Bool) : List BlockLine → List Char
  | [] => []
  | [line] => line.text
  | line :: next :: rest =>
    let spaced (l : BlockLine) : Bool := l.text.head?.any isBlank
    let between :=
      if literal || spaced line || spaced next then List.replicate line.breaks '\n'
      else folded line.breaks
    line.text ++ between ++ joinLines literal (next :: rest)

/-- The breaks at the end of a block scalar: those after its last line, and one more where the text
ends in a column that belongs to the scalar. -/
def chomped (chomping : Chomping) (breaks : Nat) (atEnd : Bool) : List Char :=
  let last := if breaks = 0 then [] else ['\n']
  let final := if atEnd then ['\n'] else []
  match chomping with
  | .strip => []
  | .clip => last ++ final
  | .keep => last ++ final ++ List.replicate (breaks - 1) '\n'

/-- A block scalar without a line at the end of a text: of `breaks` empty lines, after a header
with a line break or not, on the same line or not. The break after the header counts if no other
does. -/
def emptyBlock (chomping : Chomping) (headerBroken : Bool) (breaks : Nat) : List Char :=
  if chomping = .strip || !headerBroken then []
  else if chomping = .keep then List.replicate (max 1 breaks) '\n'
  else ['\n']

/-- A block scalar after its first character. Its indentation is given by the header or by its
first lines, and is more than that of the collection it stands in. A first line between the two is
an error. -/
def readBlock (literal : Bool) (indent : Int) (t : Text) : Option (List Char × Text) := do
  let (chomping, given, rest) ← readHeader none none t
  let chomping := chomping.getD .clip
  let lineEnd ← passLineGap rest
  if !endsLine (charAt lineEnd 0) then none
  let headerBroken := charAt lineEnd 0 = '\n'
  let body := if headerBroken then lineEnd.drop 1 else lineEnd
  if charAt body 0 = '\t' then none
  let (col, breaks, first) := match given with
    | some n =>
      let col := indent.toNat + n
      let (breaks, first) := passIndent col 0 body
      (col, breaks, first)
    | none =>
      let (widest, breaks, first) := passEmptyLines 0 0 body
      (max widest (indent + 1).toNat, breaks, first)
  let m := here first
  if m.char = '\x00' then return (emptyBlock chomping headerBroken breaks, first)
  else if m.col < col && indent < m.col then none
  else
    let (lines, after) := readBlockLines first.length col first
    let final := match lines.getLast? with
      | none => []
      | some line =>
        let stop := here after
        chomped chomping line.breaks (stop.char = '\x00' && max col 1 ≤ stop.col)
    let start := if lines.isEmpty && chomping ≠ .keep then [] else List.replicate breaks '\n'
    return (start ++ joinLines literal lines ++ final, after)

end ImpliedKeys.Yaml
