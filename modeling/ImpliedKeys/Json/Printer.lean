import ImpliedKeys.Json.Basic

/-!
# JSON text

A value is written either on one line or with two blanks of indentation per level; in both forms
the fields stand in the order in which the value lists them. Characters outside ASCII are written
as they are.
-/
namespace ImpliedKeys.Json

def hexDigit (n : Nat) : Char := (Nat.digitChar n)

/-- A character inside quotes: the quote, the backslash and the control characters are escaped. -/
def escape (c : Char) : List Char :=
  if c = '"' then ['\\', '"']
  else if c = '\\' then ['\\', '\\']
  else if c = '\n' then ['\\', 'n']
  else if c = '\r' then ['\\', 'r']
  else if c = '\t' then ['\\', 't']
  else if c.toNat = 8 then ['\\', 'b']
  else if c.toNat = 12 then ['\\', 'f']
  else if c.toNat < 32 then
    ['\\', 'u', '0', '0', hexDigit (c.toNat / 16), hexDigit (c.toNat % 16)]
  else [c]

def quote (s : String) : String :=
  "\"" ++ String.ofList (s.toList.flatMap escape) ++ "\""

def zeros (n : Nat) : String := String.ofList (List.replicate n '0')

/-- Decimal digits with a scale: positional from `10^-5` up to `10^16`, and with an exponent
elsewhere. -/
def decimal (digits : Nat) (exponent : Int) : String :=
  let ds := toString digits
  let point := exponent + ds.length
  if 0 ≤ exponent ∧ point ≤ 16 then ds ++ zeros exponent.toNat ++ ".0"
  else if 0 < point ∧ point ≤ 16 then
    String.ofList (ds.toList.take point.toNat) ++ "." ++ String.ofList (ds.toList.drop point.toNat)
  else if -5 < point ∧ point ≤ 0 then "0." ++ zeros (-point).toNat ++ ds
  else
    let fraction := if ds.length = 1 then "" else "." ++ String.ofList (ds.toList.drop 1)
    String.ofList (ds.toList.take 1) ++ fraction ++ "e" ++ toString (point - 1)

/-- A number with a fraction; what is not finite has no JSON form and is written as null. -/
def realText (x : Binary64) : String :=
  if !x.isFinite then "null"
  else
    let size := if x.magnitude = 0 then "0.0" else decimal x.shortest.1 x.shortest.2
    if x.isNegative then "-" ++ size else size

mutual

def compact : Json → String
  | .null => "null"
  | .bool b => if b then "true" else "false"
  | .int n => toString n
  | .real x => realText x
  | .str s => quote s
  | .arr items => "[" ++ String.intercalate "," (compactItems items) ++ "]"
  | .obj fields => "\x7b" ++ String.intercalate "," (compactFields fields) ++ "\x7d"

def compactItems : List Json → List String
  | [] => []
  | v :: rest => compact v :: compactItems rest

def compactFields : List (String × Json) → List String
  | [] => []
  | (name, v) :: rest => (quote name ++ ":" ++ compact v) :: compactFields rest

end

def newline (level : Nat) : String := "\n" ++ String.ofList (List.replicate (2 * level) ' ')

/-- Entries between brackets, each on a line of its own one level deeper. -/
def bracketed (opening closing : String) (level : Nat) (entries : List String) : String :=
  if entries.isEmpty then opening ++ closing
  else
    opening ++ newline (level + 1) ++ String.intercalate ("," ++ newline (level + 1)) entries ++
      newline level ++ closing

mutual

/-- The value over several lines, standing at a level of indentation. -/
def prettyAt (level : Nat) : Json → String
  | .arr items => bracketed "[" "]" level (prettyItems (level + 1) items)
  | .obj fields => bracketed "\x7b" "\x7d" level (prettyFields (level + 1) fields)
  | v => compact v

def prettyItems (level : Nat) : List Json → List String
  | [] => []
  | v :: rest => prettyAt level v :: prettyItems level rest

def prettyFields (level : Nat) : List (String × Json) → List String
  | [] => []
  | (name, v) :: rest => (quote name ++ ": " ++ prettyAt level v) :: prettyFields level rest

end

def pretty (v : Json) : String := prettyAt 0 v

end ImpliedKeys.Json
