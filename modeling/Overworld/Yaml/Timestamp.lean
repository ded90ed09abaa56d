import Overworld.Text.Bytes

/-!
# Timestamps

Which texts are read as a date or a time.
-/

set_option autoImplicit false

namespace Overworld.Yaml.Timestamp

def number : Bytes → Option (Nat × Bytes)
  | a :: b :: rest =>
    if !Bytes.isDigit a then none
    else if Bytes.isDigit b then some ((a.toNat - 0x30) * 10 + (b.toNat - 0x30), rest)
    else some (a.toNat - 0x30, b :: rest)
  | [a] => if Bytes.isDigit a then some (a.toNat - 0x30, []) else none
  | [] => none

def below (bound : Nat) (s : Bytes) : Option Bytes := do
  let (n, rest) ← number s
  if n < bound then some rest else none

def isLeap (year : Nat) : Bool := year % 4 = 0 && (year % 100 != 0 || year % 400 = 0)

def daysIn (month year : Nat) : Nat :=
  if month = 2 then if isLeap year then 29 else 28
  else if month = 4 || month = 6 || month = 9 || month = 11 then 30
  else 31

def date : Bytes → Option Bytes
  | a :: b :: c :: d :: 0x2D :: rest => do
    if !([a, b, c, d].all Bytes.isDigit) then none
    let year := [a, b, c, d].foldl (fun n x => 10 * n + (x.toNat - 0x30)) 0
    let (month, rest) ← number rest
    match rest with
    | 0x2D :: rest => do
      let (day, rest) ← number rest
      if month < 1 || 12 < month || day < 1 || daysIn month year < day then none else some rest
    | _ => none
  | _ => none

def clock (s : Bytes) : Option Bytes := do
  match ← below 24 s with
  | 0x3A :: rest =>
    match ← below 60 rest with
    | 0x3A :: rest =>
      let rest ← below 60 rest
      match rest with
      | p :: d :: _ =>
        if (p = 0x2E || p = 0x2C) && Bytes.isDigit d then some (rest.tail.dropWhile Bytes.isDigit)
        else some rest
      | _ => some rest
    | _ => none
  | _ => none

def isZone : Bytes → Bool
  | [0x5A] => true
  | [sign, a, b, 0x3A, c, d] =>
    (sign = 0x2B || sign = 0x2D) && [a, b, c, d].all Bytes.isDigit &&
      (a.toNat - 0x30) * 10 + (b.toNat - 0x30) ≤ 24 && (c.toNat - 0x30) * 10 + (d.toNat - 0x30) ≤ 60
  | _ => false

/-- Whether a text is a date, a date and a time after spaces, or a date and a time
with a zone after the letter t. -/
def accepts (s : Bytes) : Bool :=
  match date s with
  | none => false
  | some [] => true
  | some (b :: rest) =>
    if b = 0x54 || b = 0x74 then (clock rest).any isZone
    else if b = 0x20 then (clock (Bytes.trimLeft 0x20 rest)).any List.isEmpty
    else false

end Overworld.Yaml.Timestamp
