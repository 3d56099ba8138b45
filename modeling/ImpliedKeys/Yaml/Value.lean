import ImpliedKeys.Fields
import ImpliedKeys.Number.Binary64
import ImpliedKeys.Yaml.Typed

/-!
# Nodes read by their look

Where the type of a value is not known, the look of a plain scalar decides: it is nothing, a truth
value, an integer of 64 bits, a number with a fraction, or else a text. A quoted or block scalar is
a text. An integer with a minus sign is another kind of value than one without, zero included.
-/
namespace ImpliedKeys.Yaml

/-- A value whose type was not known. -/
inductive Value where
  | null
  | flag (b : Bool)
  | natural (n : Nat)
  | signed (n : Int)
  | real (x : Binary64)
  | text (s : String)
  | list (items : List Value)
  | map (entries : List (Value × Value))
  deriving Inhabited

/-- The exponent of ten after its letter. -/
def exponent? : List Char → Option Int
  | [] => some 0
  | e :: cs =>
    let (negative, digits) := match cs with
      | '-' :: cs => (true, cs)
      | '+' :: cs => (false, cs)
      | cs => (false, cs)
    if (e = 'e' || e = 'E') && !digits.isEmpty && digits.all Char.isDigit then
      (digits? 10 digits).map fun n => if negative then -(n : Int) else n
    else none

/-- The number with a fraction that digits, a point and an exponent spell. -/
def fraction? (negative : Bool) (cs : List Char) : Option Binary64 := do
  let whole := cs.takeWhile Char.isDigit
  let rest := cs.dropWhile Char.isDigit
  let (part, rest) := match rest with
    | '.' :: rest => (rest.takeWhile Char.isDigit, rest.dropWhile Char.isDigit)
    | rest => ([], rest)
  let significand ← digits? 10 (whole ++ part)
  let exponent ← exponent? rest
  return .ofDecimal negative significand (exponent - part.length)

/-- A number with a fraction; one that is infinite or undefined is the text of its name. -/
def real? (cs : List Char) : Option Value :=
  let (negative, size) := match cs with
    | '-' :: cs => (true, cs)
    | '+' :: cs => (false, cs)
    | cs => (false, cs)
  let infinite := if negative then "-.inf" else ".inf"
  let word := lowered size
  if word ∈ [".nan", "nan"] then some (.text ".nan")
  else if word ∈ [".inf", "inf", "infinity"] then some (.text infinite)
  else
    (fraction? negative size).map fun x => if x.isFinite then .real x else .text infinite

def word64? (cs : List Char) : Option Value := do
  let n ← integer? cs
  if cs.head? = some '-' then
    if -(UInt64.size / 2 : Nat) ≤ n then return .signed n else none
  else if n < UInt64.size then return .natural n.toNat
  else none

/-- The value that a plain scalar looks like. -/
def look (s : String) : Value :=
  let cs := trimmed s
  match truth? s with
  | some b => .flag b
  | none => ((word64? cs).or (real? cs)).getD (.text s)

namespace Value

/-- The value that a node looks like. A scalar is a text as it may be read where a text is known to
be wanted, and only then, if it is plain, is it looked at. -/
def ofNode? (n : Node) : Option Value :=
  match n with
  | .scalar style tag s =>
    if tag = .null || Node.isNull (.scalar style tag s) then some .null
    else if tag = .literal then some (.text s)
    else (tag.text? s).map fun t => if style = .plain then look t else .text t
  | .sequence items => (items.attach.mapM fun item => ofNode? item.1).map .list
  | .mapping entries => do
    let read (e : { e // Node.IsPart (sizeOf (Node.mapping entries)) e }) :
        Option (Value × Value) := do
      return (← ofNode? e.1.1, ← ofNode? e.1.2)
    return .map (← (← (Node.mapping entries).parts?).mapM read)
termination_by n
decreasing_by
  · have := List.sizeOf_lt_of_mem item.2
    simp only [Node.sequence.sizeOf_spec]
    omega
  · exact e.2.1
  · exact e.2.2

/-- Every plain scalar without a tag looks like some value. -/
theorem isSome_ofNode?_plain (s : String) :
    (ofNode? (.scalar .plain .untagged s)).isSome = true := by
  rw [ofNode?]
  split
  · rfl
  · rfl

end Value

end ImpliedKeys.Yaml
