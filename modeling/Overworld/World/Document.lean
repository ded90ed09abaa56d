import Overworld.FileSystem
import Overworld.World.Map
import Overworld.Yaml.Expansion
import Overworld.Yaml.KeyOrder
import Overworld.Yaml.Tree

/-!
# Map documents

The written form of a world map: one mapping under the key `map`. Writing sorts the
entries of each dictionary for people; reading takes any order and checks the map.
-/

set_option autoImplicit false

namespace Overworld

open Yaml

def Yaml.field (name : String) (t : Tree) : Bytes × Tree := (utf8 name, t)

/-- A field that is left out where its text is empty. -/
def Yaml.optionalText (name : String) (s : Bytes) : List (Bytes × Tree) :=
  if s.isEmpty then [] else [field name (.text s)]

/-- A dictionary, its keys sorted for people. -/
def Yaml.dictTree {α : Type} (f : α → Tree) (d : Dict α) : Tree :=
  .fields ((KeyOrder.sort d.entries).map fun e => (e.1, f e.2))

namespace Location

def tree (l : Location) : Tree :=
  .fields (optionalText "map" l.scope ++ [field "index" (.text l.index)])

def decoder : Decoder Location := fun s n => do
  match ← Decoder.record [utf8 "map", utf8 "index"] s n with
  | none => return none
  | some es =>
    return some ⟨← Entry.field es "map" Decoder.text [], ← Entry.field es "index" Decoder.text []⟩

def outline : Outline := .ofScalars ["map", "index"]

end Location

namespace Coordinate

def tree (c : Coordinate) : Tree :=
  .fields [field "x" (.int c.x.toInt), field "y" (.int c.y.toInt)]

def axis : Decoder Int16 := (Decoder.integer (-32768) 32767).map Int16.ofInt

def decoder : Decoder Coordinate := fun s n => do
  match ← Decoder.record [utf8 "x", utf8 "y"] s n with
  | none => return none
  | some es => return some ⟨← Entry.field es "x" axis 0, ← Entry.field es "y" axis 0⟩

def outline : Outline := .ofScalars ["x", "y"]

end Coordinate

namespace Box

def tree (b : Box) : Tree := .fields [field "min" b.min.tree, field "max" b.max.tree]

def decoder : Decoder Box := fun s n => do
  match ← Decoder.record [utf8 "min", utf8 "max"] s n with
  | none => return none
  | some es =>
    return some ⟨← Entry.field es "min" Coordinate.decoder default,
      ← Entry.field es "max" Coordinate.decoder default⟩

def outline : Outline := .ofFields [("min", Coordinate.outline), ("max", Coordinate.outline)]

end Box

namespace Connection

def tree (c : Connection) : Tree :=
  .fields [field "location" c.location.tree, field "offset" (.int c.offset.toInt)]

def decoder : Decoder Connection := fun s n => do
  match ← Decoder.record [utf8 "location", utf8 "offset"] s n with
  | none => return none
  | some es =>
    let offset : Decoder Int32 := (Decoder.integer (-2147483648) 2147483647).map Int32.ofInt
    return some ⟨← Entry.field es "location" Location.decoder default,
      ← Entry.field es "offset" offset 0⟩

def outline : Outline := .ofFields [("location", Location.outline), ("offset", .scalar)]

end Connection

namespace Chunk

def tree (c : Chunk) : Tree := .fields [field "connections" (dictTree Connection.tree c)]

/-- Reads a chunk. A merged connection replaces one that stands in the mapping itself. -/
def decoder : Decoder Chunk := fun s n => do
  match ← Decoder.record [utf8 "connections"] s n with
  | none => return none
  | some es =>
    return some (← Entry.field es "connections" (Decoder.dict false default Connection.decoder)
      Dict.empty)

def outline : Outline := .ofFields [("connections", .dict false Connection.outline)]

end Chunk

namespace Position

def tree (p : Position) : Tree :=
  .fields (field "coords" p.coords.tree :: optionalText "facing" p.facing)

def decoder : Decoder Position := fun s n => do
  match ← Decoder.record [utf8 "coords", utf8 "facing"] s n with
  | none => return none
  | some es =>
    return some ⟨← Entry.field es "coords" Coordinate.decoder default,
      ← Entry.field es "facing" Decoder.text []⟩

def outline : Outline := .ofFields [("coords", Coordinate.outline), ("facing", .scalar)]

end Position

namespace Transition

def tree (t : Transition) : Tree :=
  .fields [field "move_on_exit" (.flag t.moveOnExit), field "warp_on_tile" (.flag t.warpOnTile),
    field "change_music" (.flag t.changeMusic)]

def decoder : Decoder Transition := fun s n => do
  match ← Decoder.record [utf8 "move_on_exit", utf8 "warp_on_tile", utf8 "change_music"] s n with
  | none => return none
  | some es =>
    return some ⟨← Entry.field es "move_on_exit" Decoder.flag false,
      ← Entry.field es "warp_on_tile" Decoder.flag false,
      ← Entry.field es "change_music" Decoder.flag false⟩

def outline : Outline := .ofScalars ["move_on_exit", "warp_on_tile", "change_music"]

end Transition

namespace Warp

def tree (w : Warp) : Tree :=
  .fields [field "area" w.area.tree,
    field "destination" (.fields [field "location" w.location.tree,
      field "position" w.position.tree, field "transition" w.transition.tree])]

def destination : Decoder (Location × Position × Transition) := fun s n => do
  match ← Decoder.record [utf8 "location", utf8 "position", utf8 "transition"] s n with
  | none => return none
  | some es =>
    return some (← Entry.field es "location" Location.decoder default,
      ← Entry.field es "position" Position.decoder default,
      ← Entry.field es "transition" Transition.decoder default)

def decoder : Decoder Warp := fun s n => do
  match ← Decoder.record [utf8 "area", utf8 "destination"] s n with
  | none => return none
  | some es =>
    let area ← Entry.field es "area" Box.decoder default
    let (location, position, transition) ← Entry.field es "destination" destination default
    return some ⟨area, location, position, transition⟩

def outline : Outline :=
  .ofFields [("area", Box.outline),
    ("destination", .ofFields [("location", Location.outline), ("position", Position.outline),
      ("transition", Transition.outline)])]

end Warp

namespace Npc

def tree (n : Npc) : Tree :=
  .fields [field "name" (.text n.name), field "type_id" (.text n.typeId),
    field "movement" (.text n.stance), field "position" n.position.tree]

def decoder : Decoder Npc := fun s n => do
  match ← Decoder.record [utf8 "name", utf8 "type_id", utf8 "movement", utf8 "position"] s n with
  | none => return none
  | some es =>
    return some ⟨← Entry.field es "name" Decoder.text [],
      ← Entry.field es "type_id" Decoder.text [],
      ← Entry.field es "movement" Decoder.text [],
      ← Entry.field es "position" Position.decoder default⟩

def outline : Outline :=
  .ofFields [("name", .scalar), ("type_id", .scalar), ("movement", .scalar),
    ("position", Position.outline)]

end Npc

namespace WorldMap

/-- The fields of a written map, in order. A map without a chunk has no such field. -/
def fields (m : WorldMap) : List (Bytes × Tree) :=
  [field "id" m.id.tree, field "name" (.text m.name)] ++
    (m.chunk.map fun c => field "chunk" (Chunk.tree c)).toList ++
    [field "warps" (dictTree Warp.tree m.warps), field "npcs" (dictTree Npc.tree m.npcs),
      field "width" (.int m.width.toNat), field "height" (.int m.height.toNat),
      field "palettes" (.row [m.palettes.primary.toNat, m.palettes.secondary.toNat]),
      field "music" (.text m.music),
      field "tiles" (.row (m.tiles.map fun t => t.toNat)),
      field "movements" (.row (m.movements.map fun t => t.toNat)),
      field "border" (.row (m.border.toList.map fun t => t.toNat))]

def render (m : WorldMap) : Bytes := renderFields [field "map" (.fields m.fields)]

def word : Decoder UInt16 := (Decoder.integer 0 65535).map fun n => UInt16.ofNat n.toNat

def octet : Decoder UInt8 := (Decoder.integer 0 255).map fun n => UInt8.ofNat n.toNat

def palettesOf : List UInt8 → Palettes
  | [a, b] => ⟨a, b⟩
  | _ => default

def borderOf : List UInt16 → Border
  | [a, b, c, d] => ⟨a, b, c, d⟩
  | _ => default

def fieldNames : List Bytes :=
  ["id", "name", "chunk", "warps", "npcs", "width", "height", "palettes", "music", "tiles",
    "movements", "border"].map utf8

def decoder : Decoder WorldMap := fun s n => do
  match ← Decoder.record fieldNames s n with
  | none => return none
  | some es =>
    let id ← Entry.field es "id" Location.decoder default
    let name ← Entry.field es "name" Decoder.text []
    let chunk ← Entry.field es "chunk" (Chunk.decoder.map some) none
    let warps ← Entry.field es "warps" (Decoder.dict true default Warp.decoder) Dict.empty
    let npcs ← Entry.field es "npcs" (Decoder.dict true default Npc.decoder) Dict.empty
    let width ← Entry.field es "width" word 0
    let height ← Entry.field es "height" word 0
    let palettes ← Entry.field es "palettes" ((Decoder.fixed 2 0 octet).map palettesOf) default
    let music ← Entry.field es "music" Decoder.text []
    let tiles ← Entry.field es "tiles" word.list []
    let movements ← Entry.field es "movements" octet.list []
    let border ← Entry.field es "border" ((Decoder.fixed 4 0 word).map borderOf) default
    return some ⟨id, name, chunk, warps, npcs, width, height, palettes, music, tiles, movements,
      border⟩

def documentDecoder : Decoder WorldMap := fun s n => do
  match ← Decoder.record [utf8 "map"] s n with
  | none => return none
  | some es => return some (← Entry.field es "map" decoder default)

def documentOutline : Outline :=
  .ofFields [("map", .ofFields [("id", Location.outline), ("name", .scalar),
    ("chunk", Chunk.outline), ("warps", .dict true Warp.outline), ("npcs", .dict true Npc.outline),
    ("width", .scalar), ("height", .scalar), ("palettes", .list .scalar), ("music", .scalar),
    ("tiles", .list .scalar), ("movements", .list .scalar), ("border", .list .scalar)])]

def load (s : Bytes) : Except Failure WorldMap := do
  match Document.decode documentOutline documentDecoder default s with
  | none => inStep "parsing map YAML" (fail .yaml)
  | some m =>
    inStep "validating map" m.validate
    return m

def loadFile (fs : FileSystem) (p : Bytes) : Except Failure WorldMap := do
  load (← inStep ("reading map file " ++ Utf8.shown p) (fs.readFile p))

end WorldMap

end Overworld
