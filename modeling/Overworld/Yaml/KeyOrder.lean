import Overworld.Text.CharacterClass
import Overworld.Text.Utf8

/-!
# The order of keys

Keys of a written mapping are sorted for people: runs of digits compare as numbers,
so that `warp_2` stands before `warp_10`.
-/

set_option autoImplicit false

namespace Overworld.Yaml.KeyOrder

/-- The number that a run of digits reads as, going on from a value, with the length of
the run. Arithmetic is in 64 bits. -/
def digitRun : Int64 → Nat → List Char → Int64 × Nat
  | n, len, [] => (n, len)
  | n, len, c :: cs =>
    if CharacterClass.isDigit c then
      digitRun (n * 10 + Int64.ofInt ((c.toNat : Int) - 0x30)) (len + 1) cs
    else (n, len)

/-- Whether one character sorts before another at the first difference of two keys,
given what stood before it and what follows each. -/
def firstDifference (before : List Char) (a : Char) (as : List Char) (b : Char) (bs : List Char) :
    Bool :=
  let letterA := CharacterClass.isLetter a
  let letterB := CharacterClass.isLetter b
  if letterA && letterB then a < b
  else if letterA || letterB then
    if before.head?.any CharacterClass.isDigit then letterA else letterB
  else
    let start : Int64 :=
      if (a = '0' || b = '0') && (before.takeWhile CharacterClass.isDigit).any (· != '0') then 1
      else 0
    let (m, i) := digitRun start 0 (a :: as)
    let (n, j) := digitRun start 0 (b :: bs)
    if m ≠ n then m < n else if i ≠ j then i < j else a < b

/-- Whether one key sorts before another. The first argument holds the characters they
share, last first. -/
def ltAfter : List Char → List Char → List Char → Bool
  | _, _, [] => false
  | _, [], _ :: _ => true
  | before, a :: as, b :: bs =>
    if a = b then ltAfter (a :: before) as bs else firstDifference before a as b bs

def lt (a b : Bytes) : Bool := ltAfter [] (Utf8.chars a) (Utf8.chars b)

def sort {α : Type} (entries : List (Bytes × α)) : List (Bytes × α) :=
  entries.mergeSort fun x y => !lt y.1 x.1

end Overworld.Yaml.KeyOrder
