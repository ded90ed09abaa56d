import Overworld.Digest
import Overworld.Zstandard.Block

/-!
# Frames

Compressed data is a row of frames, and of passages to skip. A frame has a head and blocks. The
head may state the size of the contents, and a checksum may follow the last block. Both have to be
right. Writing keeps the contents as they are, in one frame with a checksum. It states no size, so
that no contents are too large for it.
-/

set_option autoImplicit false

namespace Overworld.Zstandard

def frameMark : Bytes := [0x28, 0xB5, 0x2F, 0xFD]

def minWindow : Nat := 1024

def maxWindow : Nat := 0x20000000

def maxContents : Nat := 0x1000000000

structure Head where
  /-- How far back a repeat may reach, and how large a block may be. -/
  window : Nat
  size : Option Nat
  checked : Bool
  deriving DecidableEq, Repr

namespace Head

def field (n : Nat) (bytes : Bytes) : Option (Nat × Bytes) :=
  if bytes.length < n then none else some (littleEndian (bytes.take n), bytes.drop n)

/-- The window that a byte states: a power of two and some eighths of it. -/
def windowOf (b : Nat) : Nat :=
  let base := Nat.pow 2 (10 + b / 8)
  base + base / 8 * (b % 8)

/-- Reads a head, after the mark. A dictionary is not at hand, so none may be asked for. -/
def read (bytes : Bytes) : Option (Head × Bytes) := do
  let (descriptor, rest) ← field 1 bytes
  let whole := descriptor.testBit 5
  guard !(descriptor.testBit 3)
  let (window, rest) ← field (if whole then 0 else 1) rest
  let (dictionary, rest) ← field ([0, 1, 2, 4].getD (descriptor % 4) 0) rest
  let width := match descriptor / 64 with
    | 0 => if whole then 1 else 0
    | n => Nat.pow 2 n
  let (size, rest) ← field width rest
  let size := if width = 2 then size + 256 else size
  let window := if whole then max size minWindow else windowOf window
  guard (dictionary = 0 && window ≤ maxWindow && size ≤ maxContents)
  return (⟨window, if width = 0 then none else some size, descriptor.testBit 2⟩, rest)

end Head

/-- Decodes a block of a kind and a stated size: as it is, one byte to repeat, or compressed. -/
def decodeOne (head : Head) (kind size : Nat) (memory : Memory) (out : Array UInt8)
    (bytes : Bytes) : Option (Memory × Array UInt8 × Bytes) :=
  match kind with
  | 0 =>
    if bytes.length < size then none
    else some (memory, (bytes.take size).foldl Array.push out, bytes.drop size)
  | 1 => match bytes with
    | [] => none
    | b :: rest => some (memory, (List.replicate size b).foldl Array.push out, rest)
  | 2 =>
    if size < 2 || bytes.length < size then none
    else (decodeBlock head.window memory out (bytes.take size)).map fun (memory, out) =>
      (memory, out, bytes.drop size)
  | _ => none

def decodeBlocks (head : Head) : Nat → Memory → Array UInt8 → Bytes → Option (Array UInt8 × Bytes)
  | 0, _, _, _ => none
  | fuel + 1, memory, out, bytes => do
    let (n, rest) ← Head.field 3 bytes
    let size := n / 8
    guard (size ≤ maxBlock && size ≤ head.window)
    let (memory, out, rest) ← decodeOne head (n / 2 % 4) size memory out rest
    guard (out.size ≤ head.size.getD out.size)
    if n % 2 = 1 then return (out, rest) else decodeBlocks head fuel memory out rest

def checksum (contents : Bytes) : Nat := (Digest.xxHash64 contents).toNat % 0x100000000

def decodeFrame (bytes : Bytes) : Option (Bytes × Bytes) := do
  let (head, rest) ← Head.read bytes
  let (out, rest) ← decodeBlocks head (rest.length + 1) Memory.start #[] rest
  guard (head.size.getD out.size = out.size)
  let contents := out.toList
  if head.checked then do
    let (sum, rest) ← Head.field 4 rest
    guard (sum = checksum contents)
    return (contents, rest)
  else return (contents, rest)

def isSkipMark (mark : Bytes) : Bool :=
  match mark with
  | [a, b, c, d] => a / 16 = 5 && b = 0x2A && c = 0x4D && d = 0x18
  | _ => false

def decodeFrames : Nat → Bytes → Option Bytes
  | _, [] => some []
  | 0, _ :: _ => none
  | fuel + 1, bytes => do
    let mark := bytes.take 4
    let rest := bytes.drop 4
    if isSkipMark mark then do
      let (size, rest) ← Head.field 4 rest
      guard (size ≤ rest.length)
      decodeFrames fuel (rest.drop size)
    else if mark = frameMark then do
      let (contents, rest) ← decodeFrame rest
      return contents ++ (← decodeFrames fuel rest)
    else none

def decode (bytes : Bytes) : Option Bytes := decodeFrames bytes.length bytes

def bytesOf : Nat → Nat → Bytes
  | 0, _ => []
  | n + 1, value => UInt8.ofNat (value % 256) :: bytesOf n (value / 256)

def plainBlock (last : Bool) (contents : Bytes) : Bytes :=
  bytesOf 3 (contents.length * 8 + last.toNat) ++ contents

def plainBlocks : Nat → Bytes → Bytes
  | 0, contents => plainBlock true contents
  | n + 1, contents =>
    plainBlock false (contents.take maxBlock) ++ plainBlocks n (contents.drop maxBlock)

/-- The head of a frame that is written: a window of one full block, and a checksum. -/
def plainHead : Bytes := [0x04, 0x38]

/-- One frame that holds the contents as they are, with their checksum. -/
def encode (contents : Bytes) : Bytes :=
  frameMark ++ plainHead ++ plainBlocks ((contents.length - 1) / maxBlock) contents ++
    bytesOf 4 (checksum contents)

end Overworld.Zstandard
