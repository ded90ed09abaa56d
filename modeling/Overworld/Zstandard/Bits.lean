import Overworld.Text.Bytes

/-!
# Bit streams

Compressed data is read bit by bit. A header is read forward, from the lowest bit of its
first byte on. Everything else is read backward: from the highest bit of the last byte, where
a one marks the beginning, down to the lowest bit of the first byte.
-/

set_option autoImplicit false

namespace Overworld.Zstandard

abbrev Bits := List Bool

namespace Bits

def ofByte (b : UInt8) : Bits := (List.range 8).map fun i => b.toNat.testBit i

def forward (bytes : Bytes) : Bits := bytes.flatMap ofByte

/-- The bits of a backward stream, without the mark. There are none to read in no bytes, nor
where the last byte has no mark. -/
def backward? (bytes : Bytes) : Option Bits :=
  match bytes.reverse with
  | [] => none
  | last :: before =>
    match (ofByte last).reverse.dropWhile (!·) with
    | [] => none
    | _ :: bits => some (bits ++ before.flatMap fun b => (ofByte b).reverse)

/-- The number that the next bits spell, lowest first. Bits beyond the end are zeros. -/
def low : Nat → Bits → Nat
  | 0, _ => 0
  | _, [] => 0
  | n + 1, b :: bits => b.toNat + 2 * low n bits

/-- The number that the next bits spell, highest first. Bits beyond the end are zeros. -/
def peek (n : Nat) (bits : Bits) : Nat :=
  let seen := bits.take n
  seen.foldl (fun v b => 2 * v + b.toNat) 0 * Nat.pow 2 (n - seen.length)

def take? (n : Nat) (bits : Bits) : Option (Nat × Bits) :=
  if (bits.take n).length = n then some (peek n bits, bits.drop n) else none

end Bits

end Overworld.Zstandard
