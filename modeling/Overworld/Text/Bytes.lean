/-!
# Byte strings

Source documents, snapshots and file names are byte strings. Nothing checks that
they are well-formed UTF-8, so a text of the domain is a list of bytes and not a
`String`. Equality and order are those of the bytes. Message texts, which only
people read, are `String`s.
-/

set_option autoImplicit false

namespace Overworld

/-- A text as its bytes. -/
abbrev Bytes := List UInt8

def utf8 (s : String) : Bytes := s.toUTF8.data.toList

/-- What is said of the members of a list is decided member by member, also where there are finitely
many values that could be members. -/
instance (priority := 2000) decidableForallMem {α : Type} (p : α → Prop) [DecidablePred p]
    (l : List α) : Decidable (∀ x ∈ l, p x) := List.decidableBAll p l

namespace Bytes

/-- Strict order of byte strings: at the first difference the smaller byte comes
first, and a proper beginning of a text comes before it. -/
def lt : Bytes → Bytes → Bool
  | _, [] => false
  | [], _ :: _ => true
  | a :: as, b :: bs => if a < b then true else if b < a then false else lt as bs

def le (a b : Bytes) : Bool := !lt b a

def splitAt (sep : UInt8) : Bytes → Option (Bytes × Bytes)
  | [] => none
  | b :: bs =>
    if b = sep then some ([], bs)
    else (splitAt sep bs).map fun (before, after) => (b :: before, after)

def splitOn (sep : UInt8) : Bytes → List Bytes
  | [] => [[]]
  | b :: bs =>
    if b = sep then [] :: splitOn sep bs
    else match splitOn sep bs with
      | [] => [[b]]
      | p :: ps => (b :: p) :: ps

def join (sep : Bytes) : List Bytes → Bytes
  | [] => []
  | [p] => p
  | p :: q :: ps => p ++ sep ++ join sep (q :: ps)

def dropBeginning? : Bytes → Bytes → Option Bytes
  | [], s => some s
  | _ :: _, [] => none
  | p :: ps, b :: bs => if p = b then dropBeginning? ps bs else none

theorem drop_beginning_append (start rest : Bytes) :
    dropBeginning? start (start ++ rest) = some rest := by
  induction start with
  | nil => simp [dropBeginning?]
  | cons b start ih => simp [dropBeginning?, ih]

def beginsWith (s start : Bytes) : Bool := (dropBeginning? start s).isSome

def endsWith (s tail : Bytes) : Bool := beginsWith s.reverse tail.reverse

def trimLeft (b : UInt8) (s : Bytes) : Bytes := s.dropWhile (· == b)

def trimRight (b : UInt8) (s : Bytes) : Bytes := (s.reverse.dropWhile (· == b)).reverse

def lowerByte (b : UInt8) : UInt8 := if 0x41 ≤ b && b ≤ 0x5A then b + 0x20 else b

def upperByte (b : UInt8) : UInt8 := if 0x61 ≤ b && b ≤ 0x7A then b - 0x20 else b

def lower (s : Bytes) : Bytes := s.map lowerByte

def upper (s : Bytes) : Bytes := s.map upperByte

def isDigit (b : UInt8) : Bool := 0x30 ≤ b && b ≤ 0x39

def hexValue? (b : UInt8) : Option Nat :=
  if 0x30 ≤ b && b ≤ 0x39 then some (b.toNat - 0x30)
  else if 0x61 ≤ b && b ≤ 0x66 then some (b.toNat - 0x57)
  else if 0x41 ≤ b && b ≤ 0x46 then some (b.toNat - 0x37)
  else none

def hexDigit (n : Nat) : Char :=
  if n < 10 then Char.ofNat (0x30 + n) else Char.ofNat (0x57 + n)

def hexPair (b : UInt8) : String :=
  String.ofList [hexDigit (b.toNat / 16), hexDigit (b.toNat % 16)]

def toHex (s : Bytes) : String :=
  String.ofList (s.flatMap fun b => [hexDigit (b.toNat / 16), hexDigit (b.toNat % 16)])

def ofHex? : Bytes → Option Bytes
  | [] => some []
  | [_] => none
  | a :: b :: rest => do
    let h ← hexValue? a
    let l ← hexValue? b
    return UInt8.ofNat (16 * h + l) :: (← ofHex? rest)

def ofNat (n : Nat) : Bytes := (Nat.toDigits 10 n).map fun c => UInt8.ofNat c.toNat

def ofInt (n : Int) : Bytes :=
  if n < 0 then 0x2D :: ofNat n.natAbs else ofNat n.natAbs

end Bytes

end Overworld
