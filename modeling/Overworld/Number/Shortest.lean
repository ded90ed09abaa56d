import Overworld.Number.Binary64

/-!
# Shortest decimal text

The fewest decimal digits that read back as the same number, and of several such
texts the one nearest to it. The digits are found by testing, for one digit, two
digits and so on, the two neighbours of the number on that decimal grid against
the interval of reals that round to it.
-/

set_option autoImplicit false

namespace Overworld.Binary64

structure Ratio where
  num : Nat
  den : Nat
  deriving Repr

def Ratio.ofScaled (m : Nat) (e : Int) : Ratio :=
  if e < 0 then ⟨m, Nat.pow 2 e.natAbs⟩ else ⟨m * Nat.pow 2 e.natAbs, 1⟩

def Ratio.lt (a b : Ratio) : Bool := a.num * b.den < b.num * a.den

def Ratio.ofDecimal (d : Nat) (p : Int) : Ratio :=
  if p < 0 then ⟨d, Nat.pow 10 p.natAbs⟩ else ⟨d * Nat.pow 10 p.natAbs, 1⟩

def Ratio.belowPower (r : Ratio) (p : Int) : Bool := r.lt (Ratio.ofDecimal 1 p)

/-- The least `p` at or above a start, within the fuel, with `r < 10 ^ p`. -/
def Ratio.raise (r : Ratio) : Nat → Int → Int
  | 0, p => p
  | fuel + 1, p => if r.belowPower p then p else r.raise fuel (p + 1)

/-- Decimal digits of a positive number: `digits * 10 ^ exponent`. -/
structure Digits where
  digits : Nat
  exponent : Int
  deriving DecidableEq, Repr

/-- The neighbour of `value` on the grid of multiples of `10 ^ p` that lies between
the bounds, the nearer one when both do. The bounds themselves count when asked. -/
def onGrid (value low high : Ratio) (closed : Bool) (p : Int) : Option Nat :=
  let below : Nat :=
    if p < 0 then value.num * Nat.pow 10 p.natAbs / value.den
    else value.num / (value.den * Nat.pow 10 p.natAbs)
  let ok (d : Nat) : Bool :=
    let r := Ratio.ofDecimal d p
    (low.lt r && r.lt high) || (closed && !r.lt low && !high.lt r)
  match ok below, ok (below + 1) with
  | true, true =>
    let lo := Ratio.ofDecimal below p
    let hi := Ratio.ofDecimal (below + 1) p
    -- twice the value against the sum of both neighbours
    let twice : Ratio := ⟨2 * value.num, value.den⟩
    let sum : Ratio := ⟨lo.num * hi.den + hi.num * lo.den, lo.den * hi.den⟩
    some (if twice.lt sum then below else if sum.lt twice then below + 1
      else below + below % 2)
  | true, false => some below
  | false, true => some (below + 1)
  | false, false => none

def firstGrid (value low high : Ratio) (closed : Bool) : Nat → Int → Digits
  | 0, p => ⟨(onGrid value low high closed p).getD 0, p⟩
  | fuel + 1, p =>
    match onGrid value low high closed p with
    | some d => ⟨d, p⟩
    | none => firstGrid value low high closed fuel (p - 1)

def Digits.strip : Nat → Digits → Digits
  | 0, d => d
  | fuel + 1, d =>
    if d.digits % 10 = 0 && d.digits != 0 then Digits.strip fuel ⟨d.digits / 10, d.exponent + 1⟩
    else d

def shortest (m : Nat) (e : Int) : Digits :=
  let value := Ratio.ofScaled (4 * m) (e - 2)
  let high := Ratio.ofScaled (4 * m + 2) (e - 2)
  -- just above a power of two the gap below is half as wide
  let low :=
    if m = 0x10000000000000 && minExponent < e then Ratio.ofScaled (4 * m - 1) (e - 2)
    else Ratio.ofScaled (4 * m - 2) (e - 2)
  let top := value.raise 700 (-330)
  Digits.strip 20 (firstGrid value low high (m % 2 = 0) 18 (top - 1))

def digitChars (n : Nat) : List Char := Nat.toDigits 10 n

def Digits.positional (d : Digits) : List Char :=
  let cs := digitChars d.digits
  if 0 ≤ d.exponent then cs ++ List.replicate d.exponent.natAbs '0'
  else
    let after := d.exponent.natAbs
    if after < cs.length then
      cs.take (cs.length - after) ++ '.' :: cs.drop (cs.length - after)
    else '0' :: '.' :: (List.replicate (after - cs.length) '0' ++ cs)

/-- Scientific notation: one digit before the point, an exponent with a sign and at
least two digits. -/
def Digits.scientific (d : Digits) : List Char :=
  let cs := digitChars d.digits
  let exp : Int := d.exponent + (cs.length : Int) - 1
  let expDigits := digitChars exp.natAbs
  let padded := if expDigits.length < 2 then '0' :: expDigits else expDigits
  let lead := match cs with
    | [] => []
    | [c] => [c]
    | c :: rest => c :: '.' :: rest
  lead ++ 'e' :: (if exp < 0 then '-' else '+') :: padded

def showWith (form : Digits → List Char) : Binary64 → String
  | .nan => "NaN"
  | .infinite negative => if negative then "-Inf" else "+Inf"
  | .finite negative m e =>
    let body := if m = 0 then ['0'] else form (shortest m e)
    String.ofList (if negative then '-' :: body else body)

/-- The general form: scientific below 10^-4 and from 10^6 on. -/
def general : Binary64 → String := showWith fun d =>
  let exp : Int := d.exponent + ((digitChars d.digits).length : Int) - 1
  if exp < -4 || 6 ≤ exp then d.scientific else d.positional

def plain : Binary64 → String := showWith Digits.positional

end Overworld.Binary64
