import Overworld.Dict
import Overworld.World.Direction
import Overworld.World.Geometry

/-!
# World maps

A map with everything resolved: where its edges and warps lead, who stands on it,
and its tiles. Chunks, warps and characters are dictionaries, so two maps with the
same contents are equal.
-/

set_option autoImplicit false

namespace Overworld

structure Connection where
  location : Location
  offset : Int32
  deriving DecidableEq, Repr, Inhabited

/-- The neighbours of a map, keyed by the name of a direction. -/
abbrev Chunk := Dict Connection

structure Transition where
  moveOnExit : Bool
  warpOnTile : Bool
  changeMusic : Bool
  deriving DecidableEq, Repr, Inhabited

/-- A place on a map, with the direction faced there; an empty text faces none. -/
structure Position where
  coords : Coordinate
  facing : Bytes
  deriving DecidableEq, Repr, Inhabited

structure Warp where
  area : Box
  location : Location
  position : Position
  transition : Transition
  deriving DecidableEq, Repr, Inhabited

structure Npc where
  name : Bytes
  typeId : Bytes
  stance : Bytes
  position : Position
  deriving DecidableEq, Repr, Inhabited

structure Border where
  topLeft : UInt16
  topRight : UInt16
  bottomLeft : UInt16
  bottomRight : UInt16
  deriving DecidableEq, Repr, Inhabited

def Border.toList (b : Border) : List UInt16 := [b.topLeft, b.topRight, b.bottomLeft, b.bottomRight]

structure Palettes where
  primary : UInt8
  secondary : UInt8
  deriving DecidableEq, Repr, Inhabited

structure WorldMap where
  id : Location
  name : Bytes
  /-- The neighbours; absent for a map without connections. -/
  chunk : Option Chunk
  warps : Dict Warp
  npcs : Dict Npc
  width : UInt16
  height : UInt16
  palettes : Palettes
  music : Bytes
  tiles : List UInt16
  movements : List UInt8
  border : Border
  deriving DecidableEq, Repr, Inhabited

def Location.validate (l : Location) : Except Failure Unit :=
  if l.index.isEmpty then fail .emptyIndex
  else if Location.maxWidth < l.index.length then fail (.wideIndex l.index)
  else if Location.maxWidth < l.scope.length then fail (.wideScope l.scope)
  else .ok ()

namespace WorldMap

def validateConnection (e : Bytes × Connection) : Except Failure Unit := do
  let _ ← Direction.parse e.1
  inStep ("connection " ++ Utf8.shown e.1) e.2.location.validate

def validateWarp (e : Bytes × Warp) : Except Failure Unit :=
  inStep ("warp " ++ Utf8.shown e.1) e.2.location.validate

def validateChunk : Option Chunk → Except Failure Unit
  | none => .ok ()
  | some c => if c.isEmpty then fail .emptyChunk else c.entries.forM validateConnection

/-- Checks that a map is consistent: its location, its tiles and movements against
its size, and where its chunk and warps lead. -/
def validate (m : WorldMap) : Except Failure Unit := do
  inStep ("map " ++ Quoted.quote m.name) m.id.validate
  inStep ("map " ++ m.id.shown) do
    let (w, h) := (m.width.toNat, m.height.toNat)
    if m.tiles.length ≠ w * h then fail (.tileCount m.tiles.length w h)
    if m.movements.length ≠ w * h then fail (.movementCount m.movements.length w h)
    validateChunk m.chunk
    m.warps.entries.forM validateWarp

end WorldMap

end Overworld
