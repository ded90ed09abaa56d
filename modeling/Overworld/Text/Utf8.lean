import Overworld.Text.Bytes

/-!
# UTF-8

A byte string splits, from left to right, into well-formed characters and stray
bytes that start no character. A text is well formed when no byte is stray;
showing a text replaces every stray byte by U+FFFD.
-/

set_option autoImplicit false

namespace Overworld.Utf8

inductive Piece where
  | char (c : Char)
  /-- A byte that begins no well-formed character. -/
  | stray (b : UInt8)
  deriving DecidableEq, Repr

def isTail (b : UInt8) : Bool := 0x80 ≤ b && b ≤ 0xBF

/-- Whether the second byte of a longer character suits the first one: no overlong
forms, no surrogates, nothing above U+10FFFF. -/
def suits (lead second : UInt8) : Bool :=
  if lead = 0xE0 then 0xA0 ≤ second && second ≤ 0xBF
  else if lead = 0xED then 0x80 ≤ second && second ≤ 0x9F
  else if lead = 0xF0 then 0x90 ≤ second && second ≤ 0xBF
  else if lead = 0xF4 then 0x80 ≤ second && second ≤ 0x8F
  else isTail second

def tailBits (b : UInt8) : Nat := b.toNat % 64

/-- The character that begins at a byte, with the number of bytes it takes from
what follows; `none` when the byte is stray. -/
def first (b : UInt8) (rest : Bytes) : Option (Char × Nat) :=
  if b < 0x80 then some (Char.ofNat b.toNat, 0)
  else if 0xC2 ≤ b && b ≤ 0xDF then
    match rest with
    | b₁ :: _ =>
      if isTail b₁ then some (Char.ofNat ((b.toNat % 32) * 64 + tailBits b₁), 1) else none
    | _ => none
  else if 0xE0 ≤ b && b ≤ 0xEF then
    match rest with
    | b₁ :: b₂ :: _ =>
      if suits b b₁ && isTail b₂ then
        some (Char.ofNat (((b.toNat % 16) * 64 + tailBits b₁) * 64 + tailBits b₂), 2)
      else none
    | _ => none
  else if 0xF0 ≤ b && b ≤ 0xF4 then
    match rest with
    | b₁ :: b₂ :: b₃ :: _ =>
      if suits b b₁ && isTail b₂ && isTail b₃ then
        some (Char.ofNat
          ((((b.toNat % 8) * 64 + tailBits b₁) * 64 + tailBits b₂) * 64 + tailBits b₃), 3)
      else none
    | _ => none
  else none

/-- The pieces of a text whose first bytes, as many as said, are already used. -/
def piecesAfter : Nat → Bytes → List Piece
  | _, [] => []
  | k + 1, _ :: rest => piecesAfter k rest
  | 0, b :: rest =>
    match first b rest with
    | some (c, k) => .char c :: piecesAfter k rest
    | none => .stray b :: piecesAfter 0 rest

def pieces (s : Bytes) : List Piece := piecesAfter 0 s

def isValid (s : Bytes) : Bool := (pieces s).all fun
  | .char _ => true
  | .stray _ => false

def replacement : Char := Char.ofNat 0xFFFD

def chars (s : Bytes) : List Char := (pieces s).map fun
  | .char c => c
  | .stray _ => replacement

def shown (s : Bytes) : String := String.ofList (chars s)

def encode (cs : List Char) : Bytes := cs.flatMap String.utf8EncodeChar

end Overworld.Utf8
