/-!
# Bytes written with sixty-four characters

Four characters write three bytes; at the end two or three characters write one or two, with equal
signs in the places of the others and no bits left over.
-/
namespace ImpliedKeys.Text

/-- The six bits that a character writes. -/
def sixBits? (c : Char) : Option Nat :=
  if 'A' ≤ c && c ≤ 'Z' then some (c.toNat - 'A'.toNat)
  else if 'a' ≤ c && c ≤ 'z' then some (c.toNat - 'a'.toNat + 26)
  else if '0' ≤ c && c ≤ '9' then some (c.toNat - '0'.toNat + 52)
  else if c = '+' then some 62
  else if c = '/' then some 63
  else none

/-- The bytes that characters write. -/
def bytes? : List Char → Option (List UInt8)
  | [] => some []
  | [a, b, '=', '='] => do
    let n := (← sixBits? a) * 64 + (← sixBits? b)
    if n % 16 = 0 then return [.ofNat (n / 16)] else none
  | [a, b, c, '='] => do
    let n := ((← sixBits? a) * 64 + (← sixBits? b)) * 64 + (← sixBits? c)
    if n % 4 = 0 then return [.ofNat (n / 1024), .ofNat (n / 4)] else none
  | a :: b :: c :: d :: rest => do
    let n := (((← sixBits? a) * 64 + (← sixBits? b)) * 64 + (← sixBits? c)) * 64 + (← sixBits? d)
    return .ofNat (n / 65536) :: .ofNat (n / 256) :: .ofNat n :: (← bytes? rest)
  | _ => none

end ImpliedKeys.Text
