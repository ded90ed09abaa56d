import Overworld.Text.CharacterClass
import Overworld.Text.Utf8

/-!
# Quoted texts

`quote` shows a byte string inside double quotes so that every byte can be read
off again. `unquote` reads a literal in double quotes, in back quotes (taken
raw), or at most one character in single quotes.
-/

set_option autoImplicit false

namespace Overworld.Quoted

open Utf8 (Piece)

def hexDigits (width n : Nat) : List Char :=
  (List.range width).map fun i => Bytes.hexDigit (n / Nat.pow 16 (width - 1 - i) % 16)

def escape : Piece → List Char
  | .stray b => '\\' :: 'x' :: hexDigits 2 b.toNat
  | .char c =>
    if c = '"' then ['\\', '"']
    else if c = '\\' then ['\\', '\\']
    else if CharacterClass.isPrintable c then [c]
    else if c = '\x07' then ['\\', 'a']
    else if c = '\x08' then ['\\', 'b']
    else if c = '\x0c' then ['\\', 'f']
    else if c = '\n' then ['\\', 'n']
    else if c = '\r' then ['\\', 'r']
    else if c = '\t' then ['\\', 't']
    else if c = '\x0b' then ['\\', 'v']
    else if c.toNat < 0x20 || c.toNat = 0x7F then '\\' :: 'x' :: hexDigits 2 c.toNat
    else if c.toNat < 0x10000 then '\\' :: 'u' :: hexDigits 4 c.toNat
    else '\\' :: 'U' :: hexDigits 8 c.toNat

def quote (s : Bytes) : String :=
  String.ofList ('"' :: ((Utf8.pieces s).flatMap escape ++ ['"']))

/-- The number written by exactly `n` digits of a base, with the rest. -/
def takeDigits (digit : UInt8 → Option Nat) (base : Nat) : Nat → Nat → Bytes →
    Option (Nat × Bytes)
  | 0, acc, s => some (acc, s)
  | _ + 1, _, [] => none
  | n + 1, acc, b :: s => do
    let d ← digit b
    takeDigits digit base n (base * acc + d) s

def octalValue? (b : UInt8) : Option Nat :=
  if 0x30 ≤ b && b ≤ 0x37 then some (b.toNat - 0x30) else none

def codePoint? (n : Nat) : Option Bytes :=
  if n.isValidChar then some (Utf8.encode [Char.ofNat n]) else none

def unescape (quoteMark : UInt8) : Bytes → Option (Bytes × Bytes)
  | [] => none
  | c :: s =>
    if c = 0x61 then some ([0x07], s)
    else if c = 0x62 then some ([0x08], s)
    else if c = 0x66 then some ([0x0C], s)
    else if c = 0x6E then some ([0x0A], s)
    else if c = 0x72 then some ([0x0D], s)
    else if c = 0x74 then some ([0x09], s)
    else if c = 0x76 then some ([0x0B], s)
    else if c = 0x78 then
      (takeDigits Bytes.hexValue? 16 2 0 s).map fun (n, r) => ([UInt8.ofNat n], r)
    else if c = 0x75 then do
      let (n, r) ← takeDigits Bytes.hexValue? 16 4 0 s
      return (← codePoint? n, r)
    else if c = 0x55 then do
      let (n, r) ← takeDigits Bytes.hexValue? 16 8 0 s
      return (← codePoint? n, r)
    else if 0x30 ≤ c && c ≤ 0x37 then
      match takeDigits octalValue? 8 3 0 (c :: s) with
      | some (n, r) => if n ≤ 255 then some ([UInt8.ofNat n], r) else none
      | none => none
    else if c = 0x5C then some ([0x5C], s)
    else if c = 0x27 || c = 0x22 then
      if c = quoteMark then some ([c], s) else none
    else none

/-- One character of a quoted literal, with the rest. A stray byte reads as the
replacement character; a bare line feed is refused. -/
def nextUnit (quoteMark : UInt8) : Bytes → Option (Bytes × Bytes)
  | [] => none
  | b :: s =>
    if b = quoteMark || b = 0x0A then none
    else if b = 0x5C then unescape quoteMark s
    else match Utf8.first b s with
      | some (_, k) => some (b :: s.take k, s.drop k)
      | none => some (Utf8.encode [Utf8.replacement], s)

/-- The content of a double-quoted literal after its opening quote, reading at
most as many characters as the fuel; the literal must end the text. -/
def readDouble : Nat → Bytes → Option Bytes
  | 0, _ => none
  | fuel + 1, s =>
    if s = [0x22] then some []
    else do
      let (unit, rest) ← nextUnit 0x22 s
      return unit ++ (← readDouble fuel rest)

def unquote : Bytes → Option Bytes
  | 0x22 :: s => readDouble (s.length + 1) s
  | 0x60 :: s =>
    match Bytes.splitAt 0x60 s with
    | some (content, []) => some (content.filter (· != 0x0D))
    | _ => none
  | [0x27, 0x27] => some []
  | 0x27 :: s =>
    match nextUnit 0x27 s with
    | some (unit, [0x27]) => some unit
    | _ => none
  | _ => none

end Overworld.Quoted
