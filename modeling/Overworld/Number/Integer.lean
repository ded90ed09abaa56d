import Overworld.Text.Bytes

/-!
# Integer literals

Reading 64-bit integers from text, in a fixed base or with the base chosen by a
`0x`, `0o`, `0b` or leading `0`. Two things can go wrong, and the one met first
from left to right counts: a byte that is no digit, or a value beyond 64 bits.
-/

set_option autoImplicit false

namespace Overworld.Number

inductive ReadError where
  | malformed
  | outOfRange
  deriving DecidableEq, Repr

def ReadError.message : ReadError → String
  | .malformed => "invalid syntax"
  | .outOfRange => "value out of range"

def digitValue? (b : UInt8) : Option Nat :=
  if Bytes.isDigit b then some (b.toNat - 0x30)
  else
    let l := Bytes.lowerByte b
    if 0x61 ≤ l && l ≤ 0x7A then some (l.toNat - 0x57) else none

def readDigits (base : Nat) : Nat → Bytes → Except ReadError Nat
  | acc, [] => .ok acc
  | acc, b :: s =>
    match digitValue? b with
    | some d =>
      if d < base then
        if base * acc + d < 0x10000000000000000 then readDigits base (base * acc + d) s
        else .error .outOfRange
      else .error .malformed
    | none => .error .malformed

def readNat (base : Nat) (s : Bytes) : Except ReadError Nat :=
  if s.isEmpty then .error .malformed else readDigits base 0 s

def splitSign : Bytes → Bool × Bytes
  | 0x2D :: s => (true, s)
  | 0x2B :: s => (false, s)
  | s => (false, s)

def signed (negative : Bool) (n : Nat) : Except ReadError Int :=
  if negative then
    if n ≤ 0x8000000000000000 then .ok (-(n : Int)) else .error .outOfRange
  else
    if n < 0x8000000000000000 then .ok (n : Int) else .error .outOfRange

def readInt (base : Nat) (s : Bytes) : Except ReadError Int := do
  let (negative, digits) := splitSign s
  signed negative (← readNat base digits)

/-- Whether each underscore separates digits, where the mark of a base counts as
a digit. The flag says whether the last byte was a digit (`some true`), an
underscore (`some false`) or neither. -/
def underscoresSeparate (hex : Bool) : Option Bool → Bytes → Bool
  | last, [] => last != some false
  | last, b :: s =>
    let l := Bytes.lowerByte b
    if Bytes.isDigit b || (hex && 0x61 ≤ l && l ≤ 0x66) then underscoresSeparate hex (some true) s
    else if b = 0x5F then
      last == some true && underscoresSeparate hex (some false) s
    else
      last != some false && underscoresSeparate hex none s

def underscoresOk (s : Bytes) : Bool :=
  match (splitSign s).2 with
  | 0x30 :: c :: rest =>
    let l := Bytes.lowerByte c
    if l = 0x62 || l = 0x6F || l = 0x78 then underscoresSeparate (l = 0x78) (some true) rest
    else underscoresSeparate false none (0x30 :: c :: rest)
  | r => underscoresSeparate false none r

def splitBase : Bytes → Nat × Bytes
  | 0x30 :: c :: d :: rest =>
    let l := Bytes.lowerByte c
    if l = 0x62 then (2, d :: rest)
    else if l = 0x6F then (8, d :: rest)
    else if l = 0x78 then (16, d :: rest)
    else (8, c :: d :: rest)
  | 0x30 :: rest => (8, rest)
  | s => (10, s)

/-- Reads a natural number below 2^64 whose beginning names its base. Underscores
may separate digits. -/
def readNatAnyBase (s : Bytes) : Except ReadError Nat :=
  if s.isEmpty then .error .malformed
  else do
    let (base, digits) := splitBase s
    let n ← readDigits base 0 (digits.filter (· != 0x5F))
    if digits.contains 0x5F && !underscoresOk s then .error .malformed else .ok n

def readIntAnyBase (s : Bytes) : Except ReadError Int := do
  let (negative, digits) := splitSign s
  signed negative (← readNatAnyBase digits)

end Overworld.Number
