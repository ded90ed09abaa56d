import Overworld.Zstandard.Huffman

/-!
# Compressed blocks

A compressed block has literal bytes and a list of steps. A step takes some literals and
then repeats earlier output. What a block states about its codes can be used again by the
blocks after it.
-/

set_option autoImplicit false

namespace Overworld.Zstandard

def littleEndian (bytes : Bytes) : Nat := bytes.foldr (fun b n => b.toNat + 256 * n) 0

def maxBlock : Nat := 128 * 1024

structure Distances where
  first : Nat
  second : Nat
  third : Nat
  deriving DecidableEq, Repr

structure Memory where
  codes : Option CodeTable
  lengths : Option StateTable
  offsets : Option StateTable
  repeats : Option StateTable
  distances : Distances
  deriving DecidableEq, Repr

def Memory.start : Memory := ⟨none, none, none, none, ⟨1, 4, 8⟩⟩

namespace Literals

/-- How literals are held: as they are, as one byte to repeat, coded with a new table, or
coded with the table before. -/
inductive Kind where
  | plain
  | repeated
  | coded
  | codedAgain
  deriving DecidableEq, Repr

/-- The head of the literals: how many there are, the size of their coded form, and whether
that is in four streams. -/
structure Head where
  kind : Kind
  size : Nat
  coded : Nat
  four : Bool
  deriving DecidableEq, Repr

/-- A head of so many bytes, its sizes above its low four bits in so many bits each. -/
def codedHead (kind : Kind) (four : Bool) (bytes : Bytes) (length width : Nat) :
    Option (Head × Bytes) :=
  if bytes.length < length then none
  else
    let n := littleEndian (bytes.take length) / 16
    some (⟨kind, n % Nat.pow 2 width, n / Nat.pow 2 width, four⟩, bytes.drop length)

def plainHead (kind : Kind) (bytes : Bytes) (length lowBits : Nat) : Option (Head × Bytes) :=
  if bytes.length < length then none
  else
    some (⟨kind, littleEndian (bytes.take length) / Nat.pow 2 lowBits, 0, false⟩, bytes.drop length)

def readHead (bytes : Bytes) : Option (Head × Bytes) := do
  guard (2 ≤ bytes.length)
  let b := (bytes.headD 0).toNat
  let format := b / 4 % 4
  let plain (kind : Kind) := match format with
    | 1 => plainHead kind bytes 2 4
    | 3 => plainHead kind bytes 3 4
    | _ => plainHead kind bytes 1 3
  let coded (kind : Kind) := match format with
    | 0 => codedHead kind false bytes 3 10
    | 1 => codedHead kind true bytes 3 10
    | 2 => codedHead kind true bytes 4 14
    | _ => codedHead kind true bytes 5 18
  match b % 4 with
  | 0 => plain .plain
  | 1 => plain .repeated
  | 2 => coded .coded
  | _ => coded .codedAgain

def decode (table : CodeTable) (head : Head) (bytes : Bytes) : Option Bytes :=
  if head.four then table.decodeFour head.size bytes else table.decodeStream head.size bytes

def read (window : Nat) (codes : Option CodeTable) (bytes : Bytes) :
    Option (Bytes × Option CodeTable × Bytes) := do
  let (head, rest) ← readHead bytes
  guard (head.size ≤ window && head.size ≤ maxBlock)
  match head.kind with
  | .plain =>
    guard (head.size ≤ rest.length)
    return (rest.take head.size, codes, rest.drop head.size)
  | .repeated =>
    match rest with
    | [] => none
    | b :: rest => return (List.replicate head.size b, codes, rest)
  | .coded =>
    guard (head.coded ≤ rest.length)
    let (table, data) ← CodeTable.read? (rest.take head.coded)
    let literals ← decode table head data
    return (literals, some table, rest.drop head.coded)
  | .codedAgain =>
    guard (head.coded ≤ rest.length)
    let table ← codes
    let literals ← decode table head (rest.take head.coded)
    return (literals, codes, rest.drop head.coded)

end Literals

namespace Steps

/-- A number from a range: the least one, and the number of bits that are added to it. -/
structure Range where
  base : Nat
  bits : Nat
  deriving DecidableEq, Repr, Inhabited

def ranges : Nat → List Nat → List Range
  | _, [] => []
  | base, bits :: rest => ⟨base, bits⟩ :: ranges (base + Nat.pow 2 bits) rest

def lengthRanges : List Range :=
  ranges 0 (List.replicate 16 0 ++
    [1, 1, 1, 1, 2, 2, 3, 3, 4, 6, 7, 8, 9, 10, 11, 12, 13, 14, 15, 16])

def repeatRanges : List Range :=
  ranges 3 (List.replicate 32 0 ++
    [1, 1, 1, 1, 2, 2, 3, 3, 4, 4, 5, 7, 8, 9, 10, 11, 12, 13, 14, 15, 16])

/-- How far back a step repeats, by symbol; the first numbers name recent distances. -/
def offsetRanges : List Range := ranges 1 (List.range 31)

def lengthShares : List Int :=
  [4, 3, 2, 2, 2, 2, 2, 2, 2, 2, 2, 2, 2, 1, 1, 1, 2, 2, 2, 2, 2, 2, 2, 2, 2, 3, 2, 1, 1, 1, 1, 1,
    -1, -1, -1, -1]

def repeatShares : List Int :=
  [1, 4, 3, 2, 2, 2, 2, 2, 2, 1, 1, 1, 1, 1, 1, 1, 1, 1, 1, 1, 1, 1, 1, 1, 1, 1, 1, 1, 1, 1, 1, 1,
    1, 1, 1, 1, 1, 1, 1, 1, 1, 1, 1, 1, 1, 1, -1, -1, -1, -1, -1, -1, -1]

def offsetShares : List Int :=
  [1, 1, 1, 1, 1, 1, 2, 2, 2, 1, 1, 1, 1, 1, 1, 1, 1, 1, 1, 1, 1, 1, 1, 1, -1, -1, -1, -1, -1]

/-- Shares written as numbers, where a negative one is a rare symbol. -/
def sharesOf (log : Nat) (shares : List Int) : Shares :=
  ⟨log, shares.map fun n => if n < 0 then .rare else .cells n.toNat⟩

/-- One of the three numbers of a step: its ranges and the table to use where a block
states none. -/
structure Field where
  ranges : List Range
  usual : Shares

def lengths : Field := ⟨lengthRanges, sharesOf 6 lengthShares⟩

def offsets : Field := ⟨offsetRanges, sharesOf 5 offsetShares⟩

def repeats : Field := ⟨repeatRanges, sharesOf 6 repeatShares⟩

/-- Reads the table of a field: the usual one, one symbol alone, a header, or the table of the
block before. -/
def Field.table (f : Field) (mode : Nat) (before : Option StateTable) (bytes : Bytes) :
    Option (StateTable × Bytes) :=
  match mode with
  | 0 => f.usual.table?.map fun t => (t, bytes)
  | 1 => match bytes with
    | b :: rest =>
      if b.toNat < f.ranges.length then some (StateTable.single b.toNat, rest) else none
    | [] => none
  | 2 => do
    let (shares, rest) ← Shares.read? 9 (f.ranges.length - 1) bytes
    return (← shares.table?, rest)
  | _ => before.map fun t => (t, bytes)

def readCount : Bytes → Option (Nat × Bytes)
  | [] => none
  | a :: rest =>
    if a < 128 then some (a.toNat, rest)
    else match rest with
      | [] => none
      | b :: rest =>
        if a < 255 then some ((a.toNat - 128) * 256 + b.toNat, rest)
        else match rest with
          | [] => none
          | c :: rest => some (0x7F00 + b.toNat + 256 * c.toNat, rest)

/-- A distance and the recent distances after it. One to three name the recent distances, or
after no literals the second, the third, and one less than the first. -/
def distance (recent : Distances) (literals value : Nat) : Nat × Distances :=
  let pick := if literals = 0 then value + 1 else value
  if 3 < value then (value - 3, ⟨value - 3, recent.first, recent.second⟩)
  else if pick ≤ 1 then (recent.first, recent)
  else
    let d := if pick = 2 then recent.second else if pick = 3 then recent.third else recent.first - 1
    let d := max d 1
    (d, ⟨d, recent.first, if pick = 2 then recent.third else recent.second⟩)

def copyBack : Nat → Nat → Array UInt8 → Array UInt8
  | 0, _, out => out
  | n + 1, back, out => copyBack n back (out.push (out.getD (out.size - back) 0))

structure Tables where
  lengths : StateTable
  offsets : StateTable
  repeats : StateTable

/-- Where a run of steps is: the three states, what is left, and what came out. -/
structure Run where
  length : Nat
  offset : Nat
  repeated : Nat
  bits : Bits
  literals : Bytes
  distances : Distances
  out : Array UInt8

def value (ranges : List Range) (cell : Cell) (bits : Bits) : Option (Nat × Bits) := do
  let range := ranges.getD cell.symbol default
  let (n, rest) ← Bits.take? range.bits bits
  return (range.base + n, rest)

/-- Runs so many steps. Output may grow to a limit, and a repeat reaches back neither beyond
the window nor before the beginning. The last step leaves the states as they are. -/
def run (t : Tables) (window limit : Nat) : Nat → Run → Option Run
  | 0, r => some r
  | n + 1, r => do
    let (offset, bits) ← value offsetRanges (t.offsets.cell r.offset) r.bits
    let (count, bits) ← value repeatRanges (t.repeats.cell r.repeated) bits
    let (length, bits) ← value lengthRanges (t.lengths.cell r.length) bits
    let (back, distances) := distance r.distances length offset
    guard ((r.literals.take length).length = length)
    guard (r.out.size + length + count ≤ limit)
    let out := (r.literals.take length).foldl Array.push r.out
    guard (back ≤ out.size && back ≤ window)
    let r := { r with
      bits := bits
      literals := r.literals.drop length
      distances := distances
      out := copyBack count back out }
    if n = 0 then some r
    else do
      let (length, bits) ← t.lengths.next? r.length r.bits
      let (repeated, bits) ← t.repeats.next? r.repeated bits
      let (offset, bits) ← t.offsets.next? r.offset bits
      run t window limit n
        { r with length := length, repeated := repeated, offset := offset, bits := bits }

end Steps

/-- Decodes a compressed block: its output is appended to what the frame gave so far. All
bits have to be used, and the block stands for no more bytes than a block may. -/
def decodeBlock (window : Nat) (memory : Memory) (out : Array UInt8) (bytes : Bytes) :
    Option (Memory × Array UInt8) := do
  let (literals, codes, rest) ← Literals.read window memory.codes bytes
  let (count, rest) ← Steps.readCount rest
  if count = 0 then
    guard rest.isEmpty
    return ({ memory with codes := codes }, literals.foldl Array.push out)
  else
    match rest with
    | [] => none
    | modes :: rest =>
      let modes := modes.toNat
      guard (modes % 4 = 0)
      let (lengths, rest) ← Steps.lengths.table (modes / 64) memory.lengths rest
      let (offsets, rest) ← Steps.offsets.table (modes / 16 % 4) memory.offsets rest
      let (repeats, rest) ← Steps.repeats.table (modes / 4 % 4) memory.repeats rest
      let bits ← Bits.backward? rest
      let (length, bits) ← lengths.start? bits
      let (offset, bits) ← offsets.start? bits
      let (repeated, bits) ← repeats.start? bits
      let limit := out.size + min maxBlock window
      let r ← Steps.run ⟨lengths, offsets, repeats⟩ window limit count
        ⟨length, offset, repeated, bits, literals, memory.distances, out⟩
      guard (r.bits.isEmpty && r.out.size + r.literals.length ≤ limit)
      return (⟨codes, some lengths, some offsets, some repeats, r.distances⟩,
        r.literals.foldl Array.push r.out)

end Overworld.Zstandard
