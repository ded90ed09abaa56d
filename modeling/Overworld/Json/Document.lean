import Overworld.Json.Reader
import Overworld.Number.Binary64

/-!
# JSON documents of any shape

Reads a document without knowing what it holds. Here nothing is let pass that the format
does not have. Numbers are double-precision.
-/

set_option autoImplicit false

namespace Overworld.Json

inductive Tree where
  | null
  | flag (b : Bool)
  | number (x : Binary64)
  | text (s : Bytes)
  | items (xs : List Tree)
  | fields (es : List (Bytes × Tree))

namespace Tree

def readUnit : Bytes → Option (Nat × Bytes)
  | a :: b :: c :: d :: rest => do
    let a ← Bytes.hexValue? a
    let b ← Bytes.hexValue? b
    let c ← Bytes.hexValue? c
    let d ← Bytes.hexValue? d
    return (a * 4096 + b * 256 + c * 16 + d, rest)
  | _ => none

/-- The character of a unit, with the rest of the text. Two units may form one character; half of
such a pair alone is replaced. -/
def character (unit : Nat) (rest : Bytes) : Char × Bytes :=
  if unit < 0xD800 || 0xE000 ≤ unit then (Char.ofNat unit, rest)
  else
    let low := match rest with
      | 0x5C :: 0x75 :: digits => readUnit digits
      | _ => none
    match low with
    | some (second, after) =>
      if unit < 0xDC00 && 0xDC00 ≤ second && second < 0xE000 then
        (Char.ofNat (0x10000 + (unit - 0xD800) * 1024 + (second - 0xDC00)), after)
      else (Utf8.replacement, rest)
    | none => (Utf8.replacement, rest)

def escaped? (b : UInt8) : Option UInt8 :=
  match b with
  | 0x22 => some 0x22
  | 0x5C => some 0x5C
  | 0x2F => some 0x2F
  | 0x62 => some 0x08
  | 0x66 => some 0x0C
  | 0x6E => some 0x0A
  | 0x72 => some 0x0D
  | 0x74 => some 0x09
  | _ => none

def readText : Nat → Bytes → Option (Bytes × Bytes)
  | 0, _ => none
  | _, [] => none
  | _ + 1, 0x22 :: rest => some ([], rest)
  | fuel + 1, 0x5C :: 0x75 :: rest => do
    let (unit, rest) ← readUnit rest
    let (c, rest) := character unit rest
    let (s, rest) ← readText fuel rest
    return (Utf8.encode [c] ++ s, rest)
  | fuel + 1, 0x5C :: e :: rest => do
    let b ← escaped? e
    let (s, rest) ← readText fuel rest
    return (b :: s, rest)
  | fuel + 1, b :: rest =>
    if b < 0x20 || b = 0x5C then none
    else do
      let (s, rest) ← readText fuel rest
      return (b :: s, rest)

/-- The text after an opening quote. Bytes that are no characters are replaced. -/
def text? (s : Bytes) : Option (Bytes × Bytes) :=
  (readText (s.length + 1) s).map fun (t, rest) => (Utf8.encode (Utf8.chars t), rest)

def splitDigits (s : Bytes) : Bytes × Bytes :=
  (s.takeWhile Bytes.isDigit, s.dropWhile Bytes.isDigit)

def afterFraction : Bytes → Option Bytes
  | 0x2E :: s =>
    let (digits, rest) := splitDigits s
    if digits.isEmpty then none else some rest
  | s => some s

def afterExponent : Bytes → Option Bytes
  | b :: s =>
    if Bytes.lowerByte b = 0x65 then
      let (digits, rest) := splitDigits (Number.splitSign s).2
      if digits.isEmpty then none else some rest
    else some (b :: s)
  | [] => some []

def afterNumber (s : Bytes) : Option Bytes := do
  let body := match s with
    | 0x2D :: rest => rest
    | _ => s
  let (digits, rest) := splitDigits body
  match digits with
  | [] => none
  | d :: more =>
    let rest := if d = 0x30 then more ++ rest else rest
    afterExponent (← afterFraction rest)

/-- A number and the rest. One beyond double precision is refused. -/
def number? (s : Bytes) : Option (Binary64 × Bytes) := do
  let rest ← afterNumber s
  let x ← (Binary64.read (s.take (s.length - rest.length))).toOption
  return (x, rest)

mutual

/-- Reads a value. Values may nest so deep as the second number says. -/
def readValue : Nat → Nat → Bytes → Option (Tree × Bytes)
  | 0, _, _ => none
  | fuel + 1, depth, s =>
    match skipSpace s with
    | [] => none
    | 0x22 :: rest => (text? rest).map fun (t, rest) => (.text t, rest)
    | 0x5B :: rest =>
      if depth = 0 then none
      else match skipSpace rest with
        | 0x5D :: rest => some (.items [], rest)
        | rest => (readItems fuel (depth - 1) rest).map fun (xs, rest) => (.items xs, rest)
    | 0x7B :: rest =>
      if depth = 0 then none
      else match skipSpace rest with
        | 0x7D :: rest => some (.fields [], rest)
        | rest => (readFields fuel (depth - 1) rest).map fun (es, rest) => (.fields es, rest)
    | b :: rest =>
      match Bytes.dropBeginning? (utf8 "null") (b :: rest) with
      | some rest => some (.null, rest)
      | none =>
        match Bytes.dropBeginning? (utf8 "true") (b :: rest) with
        | some rest => some (.flag true, rest)
        | none =>
          match Bytes.dropBeginning? (utf8 "false") (b :: rest) with
          | some rest => some (.flag false, rest)
          | none => (number? (b :: rest)).map fun (x, rest) => (.number x, rest)

def readItems : Nat → Nat → Bytes → Option (List Tree × Bytes)
  | 0, _, _ => none
  | fuel + 1, depth, s => do
    let (x, rest) ← readValue fuel depth s
    match skipSpace rest with
    | 0x2C :: rest =>
      let (xs, rest) ← readItems fuel depth rest
      return (x :: xs, rest)
    | 0x5D :: rest => return ([x], rest)
    | _ => none

def readFields : Nat → Nat → Bytes → Option (List (Bytes × Tree) × Bytes)
  | 0, _, _ => none
  | fuel + 1, depth, s => do
    match skipSpace s with
    | 0x22 :: rest =>
      let (key, rest) ← text? rest
      match skipSpace rest with
      | 0x3A :: rest =>
        let (x, rest) ← readValue fuel depth rest
        match skipSpace rest with
        | 0x2C :: rest =>
          let (es, rest) ← readFields fuel depth rest
          return ((key, x) :: es, rest)
        | 0x7D :: rest => return ([(key, x)], rest)
        | _ => none
      | _ => none
    | _ => none

end

def read (s : Bytes) : Option Tree := do
  let (t, rest) ← readValue (s.length + 1) 10000 s
  guard (skipSpace rest).isEmpty
  return t

end Tree

end Overworld.Json
