import Overworld.Number.Integer

/-!
# Double precision

Numbers with a 53-bit mantissa, held exactly as a sign, a mantissa and a power of
two. Reading rounds to the nearest one, ties to the even mantissa, in exact
integer arithmetic.
-/

set_option autoImplicit false

namespace Overworld

/-- A double-precision number. A finite one is `mantissa * 2 ^ exponent`, with the
mantissa below 2^53 and the exponent at least -1074. -/
inductive Binary64 where
  | nan
  | infinite (negative : Bool)
  | finite (negative : Bool) (mantissa : Nat) (exponent : Int)
  deriving DecidableEq, Repr

namespace Binary64

def minExponent : Int := -1074

def maxExponent : Int := 971

def zero : Binary64 := .finite false 0 minExponent

/-- The quotient rounded to the nearest integer, ties to even. -/
def roundDiv (num den : Nat) : Nat :=
  let q := num / den
  let r := num % den
  if 2 * r < den then q else if den < 2 * r then q + 1 else q + q % 2

/-- `num / (den * 2 ^ e)` rounded to the nearest integer. -/
def scaledRound (num den : Nat) (e : Int) : Nat :=
  if e < 0 then roundDiv (num * Nat.pow 2 e.natAbs) den else roundDiv num (den * Nat.pow 2 e.natAbs)

def ofQuotient (negative : Bool) (num den : Nat) : Binary64 :=
  if num = 0 then .finite negative 0 minExponent
  else
    let guess : Int := (Nat.log2 num : Int) - (Nat.log2 den : Int) - 53
    let e := max guess minExponent
    let m := scaledRound num den e
    let (m, e) :=
      if m < 0x20000000000000 then (m, e)
      else
        let e₁ := e + 1
        let m₁ := scaledRound num den e₁
        if m₁ < 0x20000000000000 then (m₁, e₁) else (scaledRound num den (e₁ + 1), e₁ + 1)
    if maxExponent < e then .infinite negative else .finite negative m e

/-- The number nearest to `digits * 10 ^ e`. Exponents beyond every finite number
are cut off before any power is formed. -/
def ofDecimal (negative : Bool) (digits : Nat) (e : Int) : Binary64 :=
  let size : Int := (Nat.log2 digits : Int) / 3
  if digits = 0 then .finite negative 0 minExponent
  else if 330 < e then .infinite negative
  else if e + size < -400 then .finite negative 0 minExponent
  else if e < 0 then ofQuotient negative digits (Nat.pow 10 e.natAbs)
  else ofQuotient negative (digits * Nat.pow 10 e.natAbs) 1

def ofBinary (negative : Bool) (digits : Nat) (e : Int) : Binary64 :=
  if digits = 0 then .finite negative 0 minExponent
  else if 1100 < e then .infinite negative
  else if e + Nat.log2 digits < -1200 then .finite negative 0 minExponent
  else if e < 0 then ofQuotient negative digits (Nat.pow 2 e.natAbs)
  else ofQuotient negative (digits * Nat.pow 2 e.natAbs) 1

def ofInt (n : Int) : Binary64 := ofQuotient (n < 0) n.natAbs 1

/-- The integer part, toward zero; `none` unless finite. -/
def truncate : Binary64 → Option Int
  | .finite negative m e =>
    let magnitude : Nat := if e < 0 then m / Nat.pow 2 e.natAbs else m * Nat.pow 2 e.natAbs
    some (if negative then -(magnitude : Int) else (magnitude : Int))
  | _ => none

def isNegative : Binary64 → Bool
  | .finite negative m _ => negative && m != 0
  | .infinite negative => negative
  | .nan => false

def isPositive : Binary64 → Bool
  | .finite negative m _ => !negative && m != 0
  | .infinite negative => !negative
  | .nan => false

/-- The digits of a decimal or hexadecimal number: their value without the point,
how many stand after it, and the rest. -/
def readMantissa (base : Nat) : Bool → Nat → Nat → Bool → Bytes → Option (Nat × Nat × Bytes)
  | point, acc, after, seen, s =>
    match s with
    | [] => if seen then some (acc, after, []) else none
    | b :: rest =>
      if b = 0x5F then readMantissa base point acc after seen rest
      else if b = 0x2E && !point then readMantissa base true acc after seen rest
      else match Number.digitValue? b with
        | some d =>
          if d < base then
            readMantissa base point (base * acc + d) (if point then after + 1 else after) true rest
          else if seen then some (acc, after, b :: rest) else none
        | none => if seen then some (acc, after, b :: rest) else none

def readExponent (s : Bytes) : Option Int :=
  let (negative, digits) := Number.splitSign s
  match digits with
  | [] => none
  | d :: _ =>
    if Bytes.isDigit d && digits.all (fun b => Bytes.isDigit b || b = 0x5F) then
      let n : Nat := digits.foldl
        (fun n b => if b = 0x5F then n else if n < 10000 then 10 * n + (b.toNat - 0x30) else n) 0
      some (if negative then -(n : Int) else (n : Int))
    else none

def readDecimal (negative : Bool) (s : Bytes) : Option Binary64 := do
  let (digits, after, rest) ← readMantissa 10 false 0 0 false s
  match rest with
  | [] => return ofDecimal negative digits (-(after : Int))
  | b :: tail =>
    if Bytes.lowerByte b = 0x65 then do
      let exponent ← readExponent tail
      return ofDecimal negative digits (exponent - (after : Int))
    else none

def readHexadecimal (negative : Bool) (s : Bytes) : Option Binary64 := do
  let (digits, after, rest) ← readMantissa 16 false 0 0 false s
  match rest with
  | b :: tail =>
    if Bytes.lowerByte b = 0x70 then do
      let exponent ← readExponent tail
      return ofBinary negative digits (exponent - 4 * (after : Int))
    else none
  | [] => none

/-- Reads a number: decimal, hexadecimal with a binary exponent, or the words for
infinity and not-a-number in any case. Underscores may separate digits. A finite
text that rounds to infinity is out of range. -/
def read (s : Bytes) : Except Number.ReadError Binary64 :=
  let (negative, body) := Number.splitSign s
  let word := Bytes.lower body
  if word = utf8 "inf" || word = utf8 "infinity" then .ok (.infinite negative)
  else if Bytes.lower s = utf8 "nan" then .ok .nan
  else
    let value := match body with
      | 0x30 :: x :: d :: rest =>
        if Bytes.lowerByte x = 0x78 then readHexadecimal negative (d :: rest)
        else readDecimal negative body
      | _ => readDecimal negative body
    match value with
    | none => .error .malformed
    | some v =>
      if s.contains 0x5F && !Number.underscoresOk s then .error .malformed
      else match v with
        | .infinite _ => .error .outOfRange
        | _ => .ok v

end Binary64

end Overworld
