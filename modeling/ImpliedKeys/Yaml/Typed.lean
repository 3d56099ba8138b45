import ImpliedKeys.Json.Reader
import ImpliedKeys.Text.Base64
import ImpliedKeys.Yaml.Node.Entries

/-!
# Nodes read as values of a known type

Where the type of a value is known, a scalar is read as that type says, quoted or not: a text takes
the scalar as it is written, and a truth value or an integer only asks for the right spelling. A
plain scalar that is empty, a tilde or the word null stands for no value.
-/
namespace ImpliedKeys.Yaml

/-- The blanks around a spelling that do not count. -/
def isSpace (c : Char) : Bool :=
  let n := c.toNat
  (9 ≤ n && n ≤ 13) || (0x2000 ≤ n && n ≤ 0x200a) ||
    n ∈ [0x20, 0x85, 0xa0, 0x1680, 0x2028, 0x2029, 0x202f, 0x205f, 0x3000]

def trimmed (s : String) : List Char :=
  ((s.toList.dropWhile isSpace).reverse.dropWhile isSpace).reverse

/-- A text in lower case, as far as it is ASCII. -/
def lowered (cs : List Char) : String := String.ofList (cs.map Char.toLower)

/-- The truth value that a word spells. -/
def truth? (s : String) : Option Bool :=
  let word := lowered (trimmed s)
  if word ∈ ["true", "yes", "y", "on"] then some true
  else if word ∈ ["false", "no", "n", "off"] then some false
  else none

/-- The number that digits of a base spell; underscores among them do not count. -/
def digits? (base : Nat) (cs : List Char) : Option Nat :=
  let written := cs.filter (· ≠ '_')
  if written.isEmpty then none
  else
    written.foldlM (fun n c =>
      (Json.hexValue? c).bind fun d => if d < base then some (n * base + d) else none) 0

/-- The number that digits spell, in the base that their first two characters name or else in base
ten. -/
def number? : List Char → Option Nat
  | '0' :: 'x' :: cs | '0' :: 'X' :: cs => digits? 16 cs
  | '0' :: 'o' :: cs | '0' :: 'O' :: cs => digits? 8 cs
  | '0' :: 'b' :: cs | '0' :: 'B' :: cs => digits? 2 cs
  | cs => digits? 10 cs

/-- The integer that a word spells. -/
def integer? (cs : List Char) : Option Int :=
  match cs with
  | '-' :: cs => (number? cs).map fun n => -(n : Int)
  | '+' :: cs => (number? cs).map Int.ofNat
  | cs => (number? cs).map Int.ofNat

def binary? (s : String) : Option (List UInt8) := Text.bytes? (s.toList.filter (!isSpace ·))

/-- Whether a scalar with a tag can be a text. -/
def TagKind.allowsText : TagKind → Bool
  | untagged | binary | text | literal | other => true
  | null | bool | int | float | timestamp | sequence | mapping => false

def TagKind.text? (tag : TagKind) (s : String) : Option String :=
  if !tag.allowsText then none
  else if tag = .binary then (binary? s).bind fun bytes => String.fromUTF8? ⟨bytes.toArray⟩
  else some s

namespace Node

def written? : Node → Option String
  | .scalar _ _ s => some s
  | _ => none

/-- Whether a scalar has the tag of no value. -/
def isTaggedNull : Node → Bool
  | .scalar _ tag _ => tag = .null
  | _ => false

/-- Whether a scalar stands for the absence of a value that may be absent. -/
def isUnset (n : Node) : Bool :=
  n.isTaggedNull || n.isNull ||
    match n with
    | .scalar .block _ s => s = ""
    | _ => false

/-- A text. Only a tag makes a text of what else stands for no value. -/
def string? (n : Node) : Option String :=
  match n with
  | .scalar _ tag s =>
    if n.isNull && tag ≠ .text && tag ≠ .literal then none else tag.text? s
  | _ => none

def flag? (n : Node) : Option Bool := n.written?.bind truth?

/-- An integer from zero up to, but not including, a bound. It is written without a minus sign. -/
def below? (bound : Nat) (n : Node) : Option Nat := do
  let cs := trimmed (← n.written?)
  if cs.head? = some '-' then none
  let value ← integer? cs
  if value < bound then some value.toNat else none

def optional? {α : Type} (read : Node → Option α) (n : Node) : Option (Option α) :=
  if n.isUnset then some none else (read n).map some

/-- A list of values; no value stands for none, and so do no bytes. -/
def list? {α : Type} (read : Node → Option α) : Node → Option (List α)
  | .sequence items => items.mapM read
  | .scalar style tag s =>
    let noBytes := tag = .binary && binary? s = some []
    if tag = .null || isNull (.scalar style tag s) || noBytes then some [] else none
  | .mapping _ => none

/-- The entries of a map from texts; no value stands for no entries. -/
def entriesByName? (n : Node) : Option (List (String × Node)) :=
  if n.isTaggedNull || n.isNull then some []
  else do (← n.entries?).mapM fun (key, value) => key.string?.map (·, value)

end Node

end ImpliedKeys.Yaml
