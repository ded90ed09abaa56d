import Overworld.Number.Binary64

/-!
# Durations

Spans of time, in nanoseconds. They are written as numbers with units, such as `1h30m` and
`1.5s`.
-/

set_option autoImplicit false

namespace Overworld.Duration

def magnitude : Nat := 0x8000000000000000

def unit? (s : Bytes) : Option Nat :=
  if s = utf8 "ns" then some 1
  else if s = utf8 "us" || s = utf8 "µs" || s = utf8 "μs" then some 1000
  else if s = utf8 "ms" then some 1000000
  else if s = utf8 "s" then some 1000000000
  else if s = utf8 "m" then some 60000000000
  else if s = utf8 "h" then some 3600000000000
  else none

def isNumeral (b : UInt8) : Bool := b = 0x2E || Bytes.isDigit b

def digitsValue (ds : Bytes) : Nat := ds.foldl (fun n d => 10 * n + (d.toNat - 0x30)) 0

/-- The digits of a fraction that are looked at: as many as their value stays in 63 bits. -/
def significant : Nat → Nat → Bytes → Nat × Nat
  | n, count, [] => (n, count)
  | n, count, d :: ds =>
    let next := 10 * n + (d.toNat - 0x30)
    if (magnitude - 1) / 10 < n || magnitude < next then (n, count)
    else significant next (count + 1) ds

def product : Binary64 → Binary64 → Binary64
  | .finite a m e, .finite b n f => Binary64.ofBinary (a != b) (m * n) (e + f)
  | _, _ => .nan

/-- The nanoseconds of a fraction of a unit, in double precision and then cut off. -/
def fraction (unit : Nat) (ds : Bytes) : Nat :=
  let (n, count) := significant 0 0 ds
  let share := Binary64.ofQuotient false unit (Nat.pow 10 count)
  ((product (Binary64.ofInt n) share).truncate.getD 0).toNat

def readPart (s : Bytes) : Option (Nat × Bytes) := do
  let whole := s.takeWhile Bytes.isDigit
  let rest := s.dropWhile Bytes.isDigit
  let (part, rest) := match rest with
    | 0x2E :: tail => (tail.takeWhile Bytes.isDigit, tail.dropWhile Bytes.isDigit)
    | _ => ([], rest)
  guard !(whole.isEmpty && part.isEmpty)
  let unit ← unit? (rest.takeWhile (!isNumeral ·))
  let n := digitsValue whole
  guard (n ≤ magnitude / unit)
  let total := n * unit + fraction unit part
  guard (total ≤ magnitude)
  return (total, rest.dropWhile (!isNumeral ·))

/-- The sum of the parts. Each takes a byte at least, so the first number, if it is that of the
bytes, suffices. -/
def readParts : Nat → Nat → Bytes → Option Nat
  | _, sum, [] => some sum
  | 0, _, _ :: _ => none
  | fuel + 1, sum, s => do
    let (n, rest) ← readPart s
    guard (sum + n ≤ magnitude)
    readParts fuel (sum + n) rest

/-- Reads a duration. Zero needs no unit. -/
def read (s : Bytes) : Option Int64 := do
  let (negative, body) := match s with
    | 0x2D :: rest => (true, rest)
    | 0x2B :: rest => (false, rest)
    | _ => (false, s)
  if body = [0x30] then return 0
  guard !body.isEmpty
  let n ← readParts body.length 0 body
  if negative then return Int64.ofInt (-(n : Int))
  else
    guard (n < magnitude)
    return Int64.ofNat n

end Overworld.Duration
