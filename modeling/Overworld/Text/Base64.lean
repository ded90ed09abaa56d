import Overworld.Text.Bytes

/-!
# Base 64

Three bytes as four letters of a 64-letter alphabet, padded with `=` at the end.
-/

set_option autoImplicit false

namespace Overworld.Base64

def letter (n : Nat) : UInt8 :=
  if n < 26 then UInt8.ofNat (0x41 + n)
  else if n < 52 then UInt8.ofNat (0x61 + (n - 26))
  else if n < 62 then UInt8.ofNat (0x30 + (n - 52))
  else if n = 62 then 0x2B
  else 0x2F

def value? (b : UInt8) : Option Nat :=
  if 0x41 ≤ b && b ≤ 0x5A then some (b.toNat - 0x41)
  else if 0x61 ≤ b && b ≤ 0x7A then some (b.toNat - 0x61 + 26)
  else if Bytes.isDigit b then some (b.toNat - 0x30 + 52)
  else if b = 0x2B then some 62
  else if b = 0x2F then some 63
  else none

def encode : Bytes → Bytes
  | [] => []
  | [a] => [letter (a.toNat / 4), letter (a.toNat % 4 * 16), 0x3D, 0x3D]
  | [a, b] =>
    [letter (a.toNat / 4), letter (a.toNat % 4 * 16 + b.toNat / 16),
      letter (b.toNat % 16 * 4), 0x3D]
  | a :: b :: c :: rest =>
    letter (a.toNat / 4) :: letter (a.toNat % 4 * 16 + b.toNat / 16) ::
      letter (b.toNat % 16 * 4 + c.toNat / 64) :: letter (c.toNat % 64) :: encode rest

def decodeLetters : Bytes → Option Bytes
  | [] => some []
  | [a, b, 0x3D, 0x3D] => do
    let (x, y) := (← value? a, ← value? b)
    return [UInt8.ofNat (x * 4 + y / 16)]
  | [a, b, c, 0x3D] => do
    let (x, y, z) := (← value? a, ← value? b, ← value? c)
    return [UInt8.ofNat (x * 4 + y / 16), UInt8.ofNat (y % 16 * 16 + z / 4)]
  | a :: b :: c :: d :: rest => do
    let (x, y) := (← value? a, ← value? b)
    let (z, w) := (← value? c, ← value? d)
    let tail ← decodeLetters rest
    return UInt8.ofNat (x * 4 + y / 16) :: UInt8.ofNat (y % 16 * 16 + z / 4) ::
      UInt8.ofNat (z % 4 * 64 + w) :: tail
  | _ => none

/-- Reads padded letters; line breaks between them are ignored. -/
def decode (s : Bytes) : Option Bytes := decodeLetters (s.filter fun b => b != 0x0A && b != 0x0D)

end Overworld.Base64
