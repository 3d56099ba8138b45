import ImpliedKeys.Json.Basic

/-!
# Reading JSON text

`Json.read?` accepts one value with blanks around it. An object is read into canonical form: its
fields are put into increasing order, and of two fields of one name the later one counts. A number
is an integer when it is written without fraction and exponent and fits 64 bits.
-/
namespace ImpliedKeys.Json

def isBlank (c : Char) : Bool := c = ' ' || c = '\t' || c = '\n' || c = '\r'

def skipBlanks (cs : List Char) : List Char := cs.dropWhile isBlank

def hexValue? (c : Char) : Option Nat :=
  if c.isDigit then some (c.toNat - '0'.toNat)
  else if 'a' ≤ c && c ≤ 'f' then some (c.toNat - 'a'.toNat + 10)
  else if 'A' ≤ c && c ≤ 'F' then some (c.toNat - 'A'.toNat + 10)
  else none

def fourHex? (a b c d : Char) : Option Nat := do
  let a ← hexValue? a
  let b ← hexValue? b
  let c ← hexValue? c
  let d ← hexValue? d
  return ((a * 16 + b) * 16 + c) * 16 + d

/-- The character of a code unit that stands alone. -/
def charOfUnit? (n : Nat) : Option Char :=
  if 0xd800 ≤ n ∧ n < 0xe000 then none else some (Char.ofNat n)

/-- The character that two code units write together. -/
def charOfUnits? (high low : Nat) : Option Char :=
  if 0xd800 ≤ high ∧ high < 0xdc00 ∧ 0xdc00 ≤ low ∧ low < 0xe000 then
    some (Char.ofNat (0x10000 + (high - 0xd800) * 0x400 + (low - 0xdc00)))
  else none

def charOfEscape? : Char → Option Char
  | '"' => some '"'
  | '\\' => some '\\'
  | '/' => some '/'
  | 'b' => some '\x08'
  | 'f' => some '\x0c'
  | 'n' => some '\n'
  | 'r' => some '\r'
  | 't' => some '\t'
  | _ => none

/-- The rest of a text up to its closing quote; `done` holds the characters before, last first. -/
def readText (done : List Char) : List Char → Option (String × List Char)
  | [] => none
  | '"' :: rest => some (String.ofList done.reverse, rest)
  | '\\' :: 'u' :: a :: b :: c :: d :: '\\' :: 'u' :: e :: f :: g :: h :: rest =>
    match fourHex? a b c d with
    | none => none
    | some unit =>
      match charOfUnit? unit with
      | some ch => readText (ch :: done) ('\\' :: 'u' :: e :: f :: g :: h :: rest)
      | none =>
        match (fourHex? e f g h).bind (charOfUnits? unit) with
        | some ch => readText (ch :: done) rest
        | none => none
  | '\\' :: 'u' :: a :: b :: c :: d :: rest =>
    match (fourHex? a b c d).bind charOfUnit? with
    | some ch => readText (ch :: done) rest
    | none => none
  | '\\' :: letter :: rest =>
    match charOfEscape? letter with
    | some ch => readText (ch :: done) rest
    | none => none
  | c :: rest => if c.toNat < 32 then none else readText (c :: done) rest

/-- The digits of a significand: as many as fit 64 bits, and how many more there are. -/
def addDigit (state : Nat × Nat) (c : Char) : Nat × Nat :=
  let next := state.1 * 10 + (c.toNat - '0'.toNat)
  if state.2 = 0 ∧ next < UInt64.size then (next, 0) else (state.1, state.2 + 1)

/-- A significand of at most 64 bits, rounded and then scaled by one power of ten at a time; `none`
if the number is too large for a double. -/
def scaled? (significand : Nat) (exponent : Int) : Option Binary64 :=
  let f := Binary64.ofDecimal false significand 0
  let ten (n : Int) : Binary64 := .ofDecimal false 1 n
  if significand = 0 then some f
  else if 308 < exponent then none
  else if 0 ≤ exponent then
    let x := f.mulSizes (ten exponent)
    if x.isFinite then some x else none
  else if -308 ≤ exponent then some (f.divSizes (ten (-exponent)))
  else if -616 ≤ exponent then some ((f.divSizes (ten 308)).divSizes (ten (-exponent - 308)))
  else some (Binary64.ofMagnitude false 0)

def readExponent : List Char → Option (Int × List Char)
  | cs =>
    let (negative, rest) := match cs with
      | '-' :: rest => (true, rest)
      | '+' :: rest => (false, rest)
      | rest => (false, rest)
    let digits := rest.takeWhile Char.isDigit
    if digits.isEmpty then none
    else
      let size : Nat := digits.foldl (fun n c => n * 10 + (c.toNat - '0'.toNat)) 0
      some (if negative then -(size : Int) else size, rest.dropWhile Char.isDigit)

/-- The number made of an integer part, a fraction, if there is one, and what follows. -/
def finishNumber (negative : Bool) (whole : List Char) (fraction : Option (List Char))
    (rest : List Char) : Option (Json × List Char) := do
  let (significand, dropped) := whole.foldl addDigit (0, 0)
  let (written, unread) := (fraction.getD []).foldl addDigit (significand, dropped)
  let (used, significand) :=
    if dropped = 0 then ((fraction.getD []).length - unread, written) else (0, significand)
  let real (e : Int) : Option Json := do
    let x ← scaled? significand ((dropped : Int) - used + e)
    return .real (.ofMagnitude negative x.magnitude)
  match rest with
  | 'e' :: rest | 'E' :: rest =>
    let (e, rest) ← readExponent rest
    return (← real e, rest)
  | _ =>
    let isReal := fraction.isSome || dropped ≠ 0 ||
      (negative && (significand = 0 || UInt64.size / 2 < significand))
    if isReal then
      return (← real 0, rest)
    else return (.int (if negative then -(significand : Int) else significand), rest)

def readNumber (cs : List Char) : Option (Json × List Char) :=
  let (negative, cs) := match cs with
    | '-' :: rest => (true, rest)
    | rest => (false, rest)
  let whole := cs.takeWhile Char.isDigit
  let rest := cs.dropWhile Char.isDigit
  if whole.isEmpty || (whole.head? = some '0' && 1 < whole.length) then none
  else
    match rest with
    | '.' :: rest =>
      let fraction := rest.takeWhile Char.isDigit
      if fraction.isEmpty then none
      else finishNumber negative whole (some fraction) (rest.dropWhile Char.isDigit)
    | rest => finishNumber negative whole none rest

mutual

/-- A value, with `fuel` bounding the nesting and the number of entries. -/
def readValue (fuel : Nat) (cs : List Char) : Option (Json × List Char) :=
  match fuel with
  | 0 => none
  | fuel + 1 =>
    match skipBlanks cs with
    | 'n' :: 'u' :: 'l' :: 'l' :: rest => some (.null, rest)
    | 't' :: 'r' :: 'u' :: 'e' :: rest => some (.bool true, rest)
    | 'f' :: 'a' :: 'l' :: 's' :: 'e' :: rest => some (.bool false, rest)
    | '"' :: rest => (readText [] rest).map fun (s, rest) => (.str s, rest)
    | '[' :: rest =>
      match skipBlanks rest with
      | ']' :: rest => some (.arr [], rest)
      | rest => (readItems fuel rest).map fun (items, rest) => (.arr items, rest)
    | '\x7b' :: rest =>
      match skipBlanks rest with
      | '\x7d' :: rest => some (.obj [], rest)
      | rest => (readFields fuel rest).map fun (fields, rest) => (.ofFields fields, rest)
    | rest => readNumber rest

def readItems (fuel : Nat) (cs : List Char) : Option (List Json × List Char) :=
  match fuel with
  | 0 => none
  | fuel + 1 => do
    let (v, rest) ← readValue fuel cs
    match skipBlanks rest with
    | ']' :: rest => return ([v], rest)
    | ',' :: rest =>
      let (vs, rest) ← readItems fuel rest
      return (v :: vs, rest)
    | _ => none

def readFields (fuel : Nat) (cs : List Char) : Option (List (String × Json) × List Char) :=
  match fuel with
  | 0 => none
  | fuel + 1 =>
    match skipBlanks cs with
    | '"' :: rest => do
      let (name, rest) ← readText [] rest
      match skipBlanks rest with
      | ':' :: rest =>
        let (v, rest) ← readValue fuel rest
        match skipBlanks rest with
        | '\x7d' :: rest => return ([(name, v)], rest)
        | ',' :: rest =>
          let (fs, rest) ← readFields fuel rest
          return ((name, v) :: fs, rest)
        | _ => none
      | _ => none
    | _ => none

end

/-- The value that a text writes, if it writes exactly one. -/
def read? (text : String) : Option Json :=
  let cs := text.toList
  match readValue (2 * cs.length + 2) cs with
  | some (v, rest) => if (skipBlanks rest).isEmpty then some v else none
  | none => none

end ImpliedKeys.Json
