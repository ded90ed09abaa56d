import Overworld.Json.Reader
import Overworld.Raw.Table
import Overworld.Raw.WarpIndex

/-!
# Source documents

The three kinds of documents of a source: the layouts, the groups of maps, and one
document for each map.
-/

set_option autoImplicit false

namespace Overworld.Source

open Json (Reader Field)

def layoutsPath : Bytes := utf8 "data/layouts/layouts.json"

def groupsPath : Bytes := utf8 "data/maps/map_groups.json"

def mapPath (name : Bytes) : Bytes := utf8 "data/maps/" ++ name ++ utf8 "/map.json"

def int16 : Reader Int16 := fun depth old s => do
  let (n, rest) ← Json.integer (-32768) 32767 depth old.toInt s
  return (Int16.ofInt n, rest)

def int32 : Reader Int32 := fun depth old s => do
  let (n, rest) ← Json.integer (-2147483648) 2147483647 depth old.toInt s
  return (Int32.ofInt n, rest)

def int64 : Reader Int64 := fun depth old s => do
  let (n, rest) ← Json.integer (-9223372036854775808) 9223372036854775807 depth old.toInt s
  return (Int64.ofInt n, rest)

def uint16 : Reader UInt16 := fun depth old s => do
  let (n, rest) ← Json.natural 65535 depth old.toNat s
  return (UInt16.ofNat n, rest)

/-- Reads the number of a warp from whatever value stands there. -/
def warpIndex : Reader Int64 := fun depth old s => do
  let (raw, rest) ← Json.rawValue depth s
  let index := Raw.WarpIndex.assign old raw
  index.outcome
  return (index.value, rest)

def connection : Reader Raw.Connection :=
  Json.record [
    .of "direction" Json.string (·.direction) fun c x => { c with direction := x },
    .of "map" Json.string (·.map) fun c x => { c with map := x },
    .of "offset" int32 (·.offset) fun c x => { c with offset := x }]

def warp : Reader Raw.Warp :=
  Json.record [
    .of "dest_map" Json.string (·.destination) fun w x => { w with destination := x },
    .of "dest_warp_id" warpIndex (·.index) fun w x => { w with index := x },
    .of "elevation" int64 (·.elevation) fun w x => { w with elevation := x },
    .of "x" int16 (·.x) fun w x => { w with x },
    .of "y" int16 (·.y) fun w y => { w with y }]

def object : Reader Raw.Object :=
  Json.record [
    .of "graphics_id" Json.string (·.graphics) fun o x => { o with graphics := x },
    .of "movement_type" Json.string (·.movement) fun o x => { o with movement := x },
    .of "x" int16 (·.x) fun o x => { o with x },
    .of "y" int16 (·.y) fun o y => { o with y }]

def mapData : Reader Raw.MapData :=
  Json.record [
    .of "connections" (Json.list default connection) (·.connections)
      fun d x => { d with connections := x },
    .of "id" Json.string (·.id) fun d x => { d with id := x },
    .of "layout" Json.string (·.layout) fun d x => { d with layout := x },
    .of "music" Json.string (·.music) fun d x => { d with music := x },
    .of "name" Json.string (·.name) fun d x => { d with name := x },
    .of "object_events" (Json.list default object) (·.objects) fun d x => { d with objects := x },
    .of "warp_events" (Json.list default warp) (·.warps) fun d x => { d with warps := x }]

def layout : Reader Raw.Layout :=
  Json.record [
    .of "blockdata_filepath" Json.string (·.tilesPath) fun l x => { l with tilesPath := x },
    .of "border_filepath" Json.string (·.borderPath) fun l x => { l with borderPath := x },
    .of "height" uint16 (·.height) fun l x => { l with height := x },
    .of "id" Json.string (·.id) fun l x => { l with id := x },
    .of "name" Json.string (·.name) fun l x => { l with name := x },
    .of "primary_tileset" Json.string (·.primary) fun l x => { l with primary := x },
    .of "secondary_tileset" Json.string (·.secondary) fun l x => { l with secondary := x },
    .of "width" uint16 (·.width) fun l x => { l with width := x }]

def layoutList : Reader (Option (List Raw.Layout)) :=
  Json.record [.of "layouts" (Json.list default layout) id fun _ x => x]

def read {α : Type} (step : String) (r : Except Cause α) : Except Failure α :=
  inStep step (r.mapError Failure.of)

/-- Reads the layouts, by their identifiers. An entry without one is a placeholder; of
two with the same identifier the later one counts. -/
def parseLayouts (s : Bytes) : Except Failure (Dict Raw.Layout) := do
  let ls ← read "parsing layouts" (Json.document layoutList none s)
  return Dict.ofList (((ls.getD []).filter fun l => !l.id.isEmpty).map fun l => (l.id, l))

def parseNames (s : Bytes) : Except Cause (List Bytes) := do
  return (← Json.document (Json.list [] Json.string) none s).getD []

def groupMembers (doc : List (Bytes × Bytes)) (group : Bytes) : Except Failure (List Bytes) :=
  match doc.lookup group with
  | none => fail (.missingGroup group)
  | some raw => read ("group " ++ Quoted.quote group) (parseNames raw)

/-- Reads the groups of maps: the names of all maps, group after group in the order that
the document gives. -/
def parseGroups (s : Bytes) : Except Failure (List Bytes) :=
  inStep "parsing map groups" do
    let doc ← (Json.document Json.object [] s).mapError Failure.of
    match doc.lookup (utf8 "group_order") with
    | none => fail .missingGroupOrder
    | some raw =>
      let order ← read "group_order" (parseNames raw)
      return (← order.mapM (groupMembers doc)).flatten

def parseMap (s : Bytes) : Except Failure Raw.MapData :=
  read "parsing map" (Json.document mapData default s)

end Overworld.Source
