import Overworld.MessagePack
import Overworld.Raw.Table
import Overworld.Zstandard.Frame

/-!
# Snapshots

A table of raw records as one file: a mark, then the compressed list of the records in the
order of their identifiers.
-/

set_option autoImplicit false

namespace Overworld.Raw

open MessagePack (Codec)
open MessagePack.Codec (Field)

def Connection.codec : Codec Connection := .record default [
  .of "direction" .text (·.direction) fun r v => { r with direction := v },
  .of "map" .text (·.map) fun r v => { r with map := v },
  .of "offset" .int32 (·.offset) fun r v => { r with offset := v }]

def Warp.codec : Codec Warp := .record default [
  .of "x" .int16 (·.x) fun r v => { r with x := v },
  .of "y" .int16 (·.y) fun r v => { r with y := v },
  .of "elevation" .int64 (·.elevation) fun r v => { r with elevation := v },
  .of "dest_map" .text (·.destination) fun r v => { r with destination := v },
  .of "dest_warp_id" .int64 (·.index) fun r v => { r with index := v }]

def Object.codec : Codec Object := .record default [
  .of "graphics_id" .text (·.graphics) fun r v => { r with graphics := v },
  .of "x" .int16 (·.x) fun r v => { r with x := v },
  .of "y" .int16 (·.y) fun r v => { r with y := v },
  .of "movement_type" .text (·.movement) fun r v => { r with movement := v }]

def MapData.codec : Codec MapData := .record default [
  .of "id" .text (·.id) fun r v => { r with id := v },
  .of "name" .text (·.name) fun r v => { r with name := v },
  .of "layout" .text (·.layout) fun r v => { r with layout := v },
  .of "music" .text (·.music) fun r v => { r with music := v },
  .of "connections" (.list Connection.codec default) (·.connections)
    fun r v => { r with connections := v },
  .of "warp_events" (.list Warp.codec default) (·.warps) fun r v => { r with warps := v },
  .of "object_events" (.list Object.codec default) (·.objects) fun r v => { r with objects := v }]

def Layout.codec : Codec Layout := .record default [
  .of "id" .text (·.id) fun r v => { r with id := v },
  .of "name" .text (·.name) fun r v => { r with name := v },
  .of "width" .uint16 (·.width) fun r v => { r with width := v },
  .of "height" .uint16 (·.height) fun r v => { r with height := v },
  .of "primary_tileset" .text (·.primary) fun r v => { r with primary := v },
  .of "secondary_tileset" .text (·.secondary) fun r v => { r with secondary := v },
  .of "border_filepath" .text (·.borderPath) fun r v => { r with borderPath := v },
  .of "blockdata_filepath" .text (·.tilesPath) fun r v => { r with tilesPath := v }]

def Record.codec : Codec Record := .record default [
  .of "data" MapData.codec (·.data) fun r v => { r with data := v },
  .of "layout" Layout.codec (·.layout) fun r v => { r with layout := v }]

/-- How the records of a table are kept. The list may be missing, and records in it. -/
def recordsCodec : Codec (Option (List (Option Record))) :=
  .list (.optional Record.codec default) none

end Overworld.Raw

namespace Overworld.Snapshot

open Raw (Record Table)

def mark : Bytes := utf8 "WGS1"

/-- What snapshots are written with: a packer, which makes one document of some records, and a
compressor. -/
structure Writer where
  pack : List Record → Except Failure Bytes
  compress : Bytes → Bytes

def pack (rs : List Record) : Bytes := Raw.recordsCodec.write (some (rs.map some))

def body (t : Table) : Bytes := pack t.toList

/-- Packs without ever failing. Of a length that takes more than four bytes it keeps the last
four. -/
def Writer.standard : Writer := ⟨fun rs => .ok (Snapshot.pack rs), Zstandard.encode⟩

def encode (w : Writer) (t : Table) : Except Failure Bytes := do
  let packed ← inStep "encoding snapshot" (w.pack t.toList)
  return mark ++ w.compress packed

def insert (t : Table) : Option Record → Except Failure Table
  | none => fail .missingRecord
  | some r =>
    match t.get? r.data.id with
    | some existing => fail (.snapshotDuplicate r.data.id existing.data.name r.data.name)
    | none => .ok (t.add r)

def ofBody (bytes : Bytes) : Except Failure Table :=
  match Raw.recordsCodec.read none bytes with
  | none => fail .snapshotBody
  | some (records, _) => (records.getD []).foldlM insert Table.empty

def decode (bytes : Bytes) : Except Failure Table :=
  match Bytes.dropBeginning? mark bytes with
  | none => fail .snapshotMark
  | some rest =>
    match Zstandard.decode rest with
    | none => fail .snapshotBody
    | some contents => ofBody contents

end Overworld.Snapshot
