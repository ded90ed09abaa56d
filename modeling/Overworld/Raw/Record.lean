import Overworld.Text.Bytes

/-!
# Raw records

Maps as the source documents describe them, before references are resolved. A list that
is absent is told apart from one that is empty.
-/

set_option autoImplicit false

namespace Overworld.Raw

structure Connection where
  direction : Bytes
  map : Bytes
  offset : Int32
  deriving DecidableEq, Repr, Inhabited

/-- A warp, with the map it leads to and the warp of that map at which it arrives. -/
structure Warp where
  x : Int16
  y : Int16
  elevation : Int64
  destination : Bytes
  index : Int64
  deriving DecidableEq, Repr, Inhabited

structure Object where
  graphics : Bytes
  x : Int16
  y : Int16
  movement : Bytes
  deriving DecidableEq, Repr, Inhabited

structure MapData where
  id : Bytes
  name : Bytes
  layout : Bytes
  music : Bytes
  connections : Option (List Connection)
  warps : Option (List Warp)
  objects : Option (List Object)
  deriving DecidableEq, Repr, Inhabited

structure Layout where
  id : Bytes
  name : Bytes
  width : UInt16
  height : UInt16
  primary : Bytes
  secondary : Bytes
  borderPath : Bytes
  tilesPath : Bytes
  deriving DecidableEq, Repr, Inhabited

structure Record where
  data : MapData
  layout : Layout
  deriving DecidableEq, Repr, Inhabited

namespace MapData

def connectionList (d : MapData) : List Connection := d.connections.getD []

def warpList (d : MapData) : List Warp := d.warps.getD []

def objectList (d : MapData) : List Object := d.objects.getD []

end MapData

end Overworld.Raw
