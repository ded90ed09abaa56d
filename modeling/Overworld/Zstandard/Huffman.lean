import Overworld.Zstandard.Entropy

/-!
# Literal codes

Literal bytes are coded with a prefix code of at most eleven bits. The code is stated by a
weight for each byte: a byte of weight zero does not occur, and otherwise each step of
the weight halves the number of codes that are left. The last byte's weight is not stated, since
the codes have to fill the table.
-/

set_option autoImplicit false

namespace Overworld.Zstandard

structure Code where
  byte : UInt8
  width : Nat
  deriving DecidableEq, Repr, Inhabited

/-- The codes by the next `log` bits. -/
structure CodeTable where
  log : Nat
  codes : Array Code
  deriving DecidableEq, Repr

namespace CodeTable

def maxLog : Nat := 11

def readHalves (n : Nat) (bytes : Bytes) : Option (List Nat × Bytes) :=
  let size := (n + 1) / 2
  if bytes.length < size then none
  else
    let halves := (bytes.take size).flatMap fun b => [b.toNat / 16, b.toNat % 16]
    some (halves.take n, bytes.drop size)

/-- Weights coded with one table and two states that take turns, until the bits are used up
and a further step would need more. -/
def decodeWeights (t : StateTable) : Nat → Nat → Nat → Bits → Option (List Nat)
  | 0, _, _, _ => none
  | fuel + 1, state, other, bits =>
    let c := t.cell state
    if bits.isEmpty && 0 < c.bits then some [c.symbol, (t.cell other).symbol]
    else do
      let (state, rest) ← t.next? state bits
      return c.symbol :: (← decodeWeights t fuel other state rest)

def readCompressed (bytes : Bytes) : Option (List Nat) := do
  let (shares, rest) ← Shares.read? 15 Shares.lastSymbol bytes
  let t ← shares.table?
  let bits ← Bits.backward? rest
  let (first, bits) ← t.start? bits
  let (second, bits) ← t.start? bits
  let weights ← decodeWeights t 256 first second bits
  guard (weights.length ≤ 255)
  return weights

def span (weight : Nat) : Nat := Nat.pow 2 weight / 2

/-- The code table of stated weights. The last weight follows from the others: the spans
add up to a power of two. Of the least weight there are at least two, and an even number. -/
def ofWeights? (weights : List Nat) : Option CodeTable := do
  guard (weights.all (· ≤ maxLog))
  let total := weights.foldl (fun n w => n + span w) 0
  guard (0 < total)
  let log := Nat.log2 total + 1
  guard (log ≤ maxLog)
  let rest := Nat.pow 2 log - total
  guard (Nat.pow 2 (Nat.log2 rest) = rest)
  let weights := weights ++ [Nat.log2 rest + 1]
  let least := weights.countP (· = 1)
  guard (2 ≤ least && least % 2 = 0)
  let codes := (List.range log).flatMap fun i =>
    weights.zipIdx.flatMap fun (weight, symbol) =>
      if weight = i + 1 then List.replicate (span weight) (Code.mk (UInt8.ofNat symbol) (log - i))
      else []
  return ⟨log, codes.toArray⟩

def readWeights (size : Nat) (bytes : Bytes) : Option (List Nat × Bytes) :=
  if 128 ≤ size then readHalves (size - 127) bytes
  else if bytes.length < size then none
  else (readCompressed (bytes.take size)).map fun weights => (weights, bytes.drop size)

def read? : Bytes → Option (CodeTable × Bytes)
  | [] => none
  | size :: rest => do
    guard (!rest.isEmpty)
    let (weights, rest) ← readWeights size.toNat rest
    let table ← ofWeights? weights
    return (table, rest)

/-- Decodes bits until none is left. The number bounds how many bytes there may be. -/
def decodeBits (t : CodeTable) : Nat → Bits → Option Bytes
  | _, [] => some []
  | 0, _ :: _ => none
  | n + 1, bits => do
    let code := t.codes.getD (Bits.peek t.log bits) default
    guard (0 < code.width && (bits.take code.width).length = code.width)
    return code.byte :: (← decodeBits t n (bits.drop code.width))

def decodeStream (t : CodeTable) (size : Nat) (bytes : Bytes) : Option Bytes := do
  let bits ← Bits.backward? bytes
  let out ← decodeBits t size bits
  guard (out.length = size)
  return out

/-- Decodes four streams, of which the first three are of one size. Their lengths stand
before them in six bytes. -/
def decodeFour (t : CodeTable) (size : Nat) (bytes : Bytes) : Option Bytes := do
  guard (10 ≤ bytes.length)
  let length (i : Nat) : Nat := (bytes.getD i 0).toNat + 256 * (bytes.getD (i + 1) 0).toNat
  let quarter := (size + 3) / 4
  guard (3 * quarter ≤ size)
  let streams := bytes.drop 6
  let first := length 0
  let second := length 2
  let third := length 4
  guard (first + second + third < streams.length)
  let a ← decodeStream t quarter (streams.take first)
  let b ← decodeStream t quarter ((streams.drop first).take second)
  let c ← decodeStream t quarter ((streams.drop (first + second)).take third)
  let d ← decodeStream t (size - 3 * quarter) (streams.drop (first + second + third))
  return a ++ b ++ c ++ d

end CodeTable

end Overworld.Zstandard
