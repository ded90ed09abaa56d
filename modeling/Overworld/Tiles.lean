import Overworld.World.Map

/-!
# Tile words

A layout stores one little-endian 16-bit word for each tile: ten bits of tile
number and six bits of movement permission. A border is four such words, of which
only the tile number counts.
-/

set_option autoImplicit false

namespace Overworld.Tiles

def tileMask : UInt16 := 0x3FF

def movementShift : UInt16 := 10

def borderBytes : Nat := 8

structure Layout where
  tiles : List UInt16
  movements : List UInt8
  border : Border
  deriving DecidableEq, Repr

def word (low high : UInt8) : UInt16 := UInt16.ofNat (low.toNat + 256 * high.toNat)

/-- The little-endian words of a blob; a last odd byte is dropped. -/
def words : Bytes → List UInt16
  | low :: high :: rest => word low high :: words rest
  | _ => []

def wordBytes (w : UInt16) : Bytes := [UInt8.ofNat (w.toNat % 256), UInt8.ofNat (w.toNat / 256)]

def tileOf (w : UInt16) : UInt16 := w &&& tileMask

def movementOf (w : UInt16) : UInt8 := (w >>> movementShift).toUInt8

def borderOf : List UInt16 → Border
  | a :: b :: c :: d :: _ => ⟨tileOf a, tileOf b, tileOf c, tileOf d⟩
  | _ => ⟨0, 0, 0, 0⟩

/-- Splits a tile blob and a border blob. The tile blob must hold exactly `count`
words, twice the count being taken in 64 bits, and the border at least four. -/
def decode (tiles border : Bytes) (count : Int64) : Option Layout :=
  if count < 0 || (tiles.length : Int) != (count * 2).toInt || border.length < borderBytes then none
  else
    let ws := words tiles
    some ⟨ws.map tileOf, ws.map movementOf, borderOf (words border)⟩

def pack (tile : UInt16) (movement : UInt8) : UInt16 :=
  (tile &&& tileMask) ||| (movement.toUInt16 <<< movementShift)

/-- The words of tiles and their movements; `none` when movements run out. -/
def packAll : List UInt16 → List UInt8 → Option (List UInt16)
  | [], _ => some []
  | _ :: _, [] => none
  | t :: ts, m :: ms => (packAll ts ms).map (pack t m :: ·)

/-- The tile blob and the border blob of a layout. A layout with fewer movements
than tiles has none. -/
def encode (l : Layout) : Option (Bytes × Bytes) :=
  (packAll l.tiles l.movements).map fun ws =>
    (ws.flatMap wordBytes, l.border.toList.flatMap fun w => wordBytes (tileOf w))

end Overworld.Tiles
