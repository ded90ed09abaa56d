import Overworld.Number.Binary64
import Overworld.Text.Base64
import Overworld.Yaml.Node
import Overworld.Yaml.Timestamp

/-!
# Values of scalars

What a scalar means. A plain scalar without a tag is guessed from its text; a quoted
one is a text. A tag of the format has to agree with the guess.
-/

set_option autoImplicit false

namespace Overworld.Yaml

inductive Value where
  | null
  | bool (b : Bool)
  | int (n : Int)
  | float (f : Binary64)
  | timestamp
  | text (s : Bytes)
  deriving DecidableEq, Repr

namespace Value

def dropDigits (s : Bytes) : Bytes := s.dropWhile Bytes.isDigit

def isExponent : Bytes → Bool
  | [] => true
  | e :: rest =>
    let digits := (Number.splitSign rest).2
    (e = 0x65 || e = 0x45) && !digits.isEmpty && digits.all Bytes.isDigit

/-- Whether a text is a decimal number with an optional sign, point and exponent: a
point alone needs digits after it. -/
def isDecimal (s : Bytes) : Bool :=
  let body := (Number.splitSign s).2
  let rest := dropDigits body
  if rest.length < body.length then
    match rest with
    | 0x2E :: tail => isExponent (dropDigits tail)
    | _ => isExponent rest
  else
    match body with
    | 0x2E :: tail => (dropDigits tail).length < tail.length && isExponent (dropDigits tail)
    | _ => false

/-- Reads an integer after `0b` or `0o`, negative ones with the sign before that. -/
def marked (letter : UInt8) (base : Nat) : Bytes → Option Int
  | 0x30 :: b :: rest =>
    if b = letter then
      match Number.readInt base rest with
      | .ok n => some n
      | .error _ => (Number.readNat base rest).toOption.map Int.ofNat
    else none
  | 0x2D :: 0x30 :: b :: rest =>
    if b = letter then (Number.readInt base (0x2D :: rest)).toOption else none
  | _ => none

/-- Reads a text that begins with a digit or a sign as a number. Underscores are
dropped first. -/
def number (s : Bytes) : Option Value :=
  let plain := s.filter (· != 0x5F)
  match Number.readIntAnyBase plain with
  | .ok n => some (.int n)
  | .error _ =>
    match Number.readNatAnyBase plain with
    | .ok n => some (.int n)
    | .error _ =>
      let decimal := if isDecimal plain then (Binary64.read plain).toOption else none
      match decimal with
      | some f => some (.float f)
      | none =>
        match marked 0x62 2 plain with
        | some n => some (.int n)
        | none => (marked 0x6F 8 plain).map .int

def spellings (w : String) : List Bytes := [utf8 w, utf8 w.capitalize, utf8 w.toUpper]

def word? (s : Bytes) : Option Value :=
  if (spellings "true").contains s then some (.bool true)
  else if (spellings "false").contains s then some (.bool false)
  else if s.isEmpty || s = [0x7E] || (spellings "null").contains s then some .null
  else if s = utf8 ".nan" || s = utf8 ".NaN" || s = utf8 ".NAN" then some (.float .nan)
  else match Number.splitSign s with
    | (negative, body) =>
      if body = utf8 ".inf" || body = utf8 ".Inf" || body = utf8 ".INF" then
        some (.float (.infinite negative))
      else none

/-- What a text means by itself. Times are looked for only where they may stand. -/
def guess (times : Bool) (s : Bytes) : Value :=
  match word? s with
  | some v => v
  | none =>
    match s with
    | [] => .null
    | b :: _ =>
      if b = 0x2E then
        match Binary64.read s with
        | .ok f => .float f
        | .error _ => .text s
      else if Bytes.isDigit b || b = 0x2B || b = 0x2D then
        if times && Timestamp.accepts s then .timestamp
        else (number s).getD (.text s)
      else .text s

def tag : Value → Bytes
  | .null => utf8 "!!null"
  | .bool _ => utf8 "!!bool"
  | .int _ => utf8 "!!int"
  | .float _ => utf8 "!!float"
  | .timestamp => utf8 "!!timestamp"
  | .text _ => utf8 "!!str"

/-- What a tagged text means. A tag outside the format leaves the text as it is. -/
def tagged (t s : Bytes) : Option Value :=
  if t = utf8 "!!str" then some (.text s)
  else if t = utf8 "!!binary" then (Base64.decode s).map .text
  else if [utf8 "!!bool", utf8 "!!int", utf8 "!!float", utf8 "!!null",
      utf8 "!!timestamp"].contains t then
    let v := guess (t = utf8 "!!timestamp") s
    if v.tag = t then some v
    else match v with
      | .int n =>
        if t = utf8 "!!float" && n < 0x8000000000000000 then some (.float (Binary64.ofInt n))
        else none
      | _ => none
  else some (.text s)

def ofScalar (tag : Option Bytes) (style : Style) (s : Bytes) : Option Value :=
  match tag with
  | some t => tagged t s
  | none => some (if style = .plain then guess true s else .text s)

end Value

def Node.isMerge : Node → Bool
  | .scalar tag style s =>
    s = utf8 "<<" && (tag = some (utf8 "!!merge") || (tag.isNone && style = .plain))
  | _ => false

end Overworld.Yaml
