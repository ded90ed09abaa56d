import Overworld.Failure
import Overworld.Raw.Record

/-!
# Rules for records

What every record has to fulfil before it is used. All broken rules are reported, those
of the map before those of the layout.
-/

set_option autoImplicit false

namespace Overworld.Raw

def violation (path fieldName rule : String) : String :=
  "Key: 'RawMap." ++ path ++ fieldName ++ "' Error:Field validation for '" ++ fieldName ++
    "' failed on the '" ++ rule ++ "' tag"

def required (path fieldName : String) (s : Bytes) : List String :=
  if s.isEmpty then [violation path fieldName "required"] else []

def itemPath (list : String) (i : Nat) : String := "Data." ++ list ++ "[" ++ toString i ++ "]."

def Connection.violations (i : Nat) (c : Connection) : List String :=
  required (itemPath "Connections" i) "Direction" c.direction ++
    required (itemPath "Connections" i) "Map" c.map

def Warp.violations (i : Nat) (w : Warp) : List String :=
  required (itemPath "Warps" i) "Destination" w.destination ++
    (if w.index < 0 then [violation (itemPath "Warps" i) "DestWarpID" "min"] else [])

def MapData.violations (d : MapData) : List String :=
  required "Data." "ID" d.id ++ required "Data." "Name" d.name ++
    required "Data." "Layout" d.layout ++
    (d.connectionList.mapIdx Connection.violations).flatten ++
    (d.warpList.mapIdx Warp.violations).flatten

def Layout.violations (l : Layout) : List String :=
  required "Layout." "ID" l.id ++
    (if l.width = 0 then [violation "Layout." "Width" "gt"] else []) ++
    (if l.height = 0 then [violation "Layout." "Height" "gt"] else []) ++
    required "Layout." "BorderPath" l.borderPath ++
    required "Layout." "BlockdataPath" l.tilesPath

def Record.violations (r : Record) : List String := r.data.violations ++ r.layout.violations

def Record.validate (r : Record) : Except Failure Unit :=
  if r.violations.isEmpty then .ok () else fail (.invalidRecord r.violations)

end Overworld.Raw
