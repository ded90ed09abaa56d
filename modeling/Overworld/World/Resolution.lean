import Overworld.Mappings
import Overworld.Raw.Identifier
import Overworld.Raw.Table
import Overworld.Tiles

/-!
# Resolution

Turns the references of a raw record into values of the world. Names go through the
dictionaries, and warps are looked up in the table of all records. A reference that is
merely unknown is logged and left out or replaced by a default; one that cannot be right
is a failure.
-/

set_option autoImplicit false

namespace Overworld

structure Resolver where
  table : Raw.Table
  mappings : Mappings

namespace Resolver

def locate (r : Resolver) (raw : Bytes) : Traced Location :=
  Identifier.derive r.mappings.locations raw

def connection (r : Resolver) (c : Raw.Connection) : Traced (Direction × Connection) := do
  let d ← (Traced.lift (Direction.parse c.direction)).within
    ("connection to " ++ Utf8.shown c.map)
  let l ← (r.locate c.map).within ("connection " ++ Utf8.shown d.name)
  return (d, ⟨l, c.offset⟩)

/-- Resolves connections one after the other; of two in one direction the later counts. -/
def connections (r : Resolver) : List Raw.Connection → Chunk → Traced Chunk
  | [], chunk => pure chunk
  | c :: cs, chunk => do
    let (d, conn) ← r.connection c
    r.connections cs (chunk.insert d.name conn)

/-- Resolves the connections of a record; without any there is no chunk. -/
def chunk (r : Resolver) (cs : List Raw.Connection) : Traced (Option Chunk) :=
  match cs with
  | [] => pure none
  | _ => do return some (← r.connections cs Dict.empty)

def transition : Transition := ⟨false, true, true⟩

def numbered (kind : String) (i : Nat) : Bytes := utf8 kind ++ 0x5F :: Bytes.ofNat i

/-- Resolves the warp at a position; one that leads to an absent map is dropped. -/
def warp (r : Resolver) (owner : Bytes) (i : Nat) (w : Raw.Warp) : Traced (Option Warp) := do
  let l ← (r.locate w.destination).within ("warp " ++ toString i)
  match r.table.get? w.destination with
  | none =>
    Traced.report .warn "warp target not found; dropping warp"
      [("map", .text (Utf8.shown owner)), ("warp", .number i),
        ("target", .text (Utf8.shown w.destination))]
    return none
  | some target =>
    let warps := target.data.warpList
    let arrival := if w.index < 0 then none else warps[w.index.toInt.toNat]?
    match arrival with
    | none =>
      Traced.lift (fail (.warpOutOfRange owner i w.index.toInt target.data.name warps.length))
    | some a =>
      return some ⟨Box.tile ⟨w.x, w.y⟩, l, ⟨⟨a.x, a.y⟩, []⟩, transition⟩

def warpsFrom (r : Resolver) (owner : Bytes) :
    Nat → List Raw.Warp → Dict Warp → Traced (Dict Warp)
  | _, [], acc => pure acc
  | i, w :: ws, acc => do
    match ← r.warp owner i w with
    | none => r.warpsFrom owner (i + 1) ws acc
    | some entry => r.warpsFrom owner (i + 1) ws (acc.insert (numbered "warp" i) entry)

def warps (r : Resolver) (owner : Raw.MapData) : Traced (Dict Warp) :=
  r.warpsFrom owner.name 0 owner.warpList Dict.empty

def facing? (movement : Bytes) : Option Direction :=
  if movement = utf8 "MOVEMENT_TYPE_FACE_LEFT" then some .left
  else if movement = utf8 "MOVEMENT_TYPE_FACE_RIGHT" then some .right
  else if movement = utf8 "MOVEMENT_TYPE_FACE_UP" then some .up
  else if movement = utf8 "MOVEMENT_TYPE_FACE_DOWN" then some .down
  else none

/-- The stance of a movement and the direction faced, which is empty for none. -/
def stance (movement : Bytes) : Bytes × Bytes :=
  match facing? movement with
  | some d => (utf8 "still", d.name)
  | none => (utf8 "neutral", [])

def npcName (o : Raw.Object) : Bytes :=
  utf8 "NPC " ++ Bytes.ofInt o.x.toInt ++ 0x2D :: Bytes.ofInt o.y.toInt

def npc (o : Raw.Object) (typeId : Bytes) : Npc :=
  let (kind, faced) := stance o.movement
  ⟨npcName o, typeId, kind, ⟨⟨o.x, o.y⟩, faced⟩⟩

/-- Resolves objects one after the other, from a position on. Objects that are no
characters are dropped. -/
def npcsFrom (r : Resolver) : Nat → List Raw.Object → Dict Npc → Traced (Dict Npc)
  | _, [], acc => pure acc
  | i, o :: os, acc =>
    match r.mappings.npcs.find? o.graphics with
    | none => do
      Traced.report .debug "object is not an npc; dropping"
        [("graphics_id", .text (Utf8.shown o.graphics))]
      r.npcsFrom (i + 1) os acc
    | some typeId => r.npcsFrom (i + 1) os (acc.insert (numbered "npc" i) (npc o typeId))

def npcs (r : Resolver) (os : List Raw.Object) : Traced (Dict Npc) := r.npcsFrom 0 os Dict.empty

def palette (known : Dict UInt8) (kind : String) (tileset : Bytes) (default : UInt8) :
    Traced UInt8 :=
  match known.find? tileset with
  | some p => pure p
  | none => do
    Traced.report .warn ("unknown " ++ kind ++ " tileset") [("tileset", .text (Utf8.shown tileset))]
    return default

def palettes (r : Resolver) (primary secondary : Bytes) : Traced Palettes := do
  let p ← palette r.mappings.primary "primary" primary Mappings.defaultPrimary
  let s ← palette r.mappings.secondary "secondary" secondary Mappings.defaultSecondary
  return ⟨p, s⟩

def music (r : Resolver) (track : Bytes) : Traced Bytes :=
  match r.mappings.music.find? track with
  | some id => pure id
  | none => do
    Traced.report .warn "cannot find music" [("track", .text (Utf8.shown track))]
    return Mappings.defaultMusic

def name (r : Resolver) (s : Bytes) : Bytes := (r.mappings.names.find? s).getD s

def resolve (r : Resolver) (record : Raw.Record) (tiles : Tiles.Layout) : Traced WorldMap := do
  let id ← r.locate record.data.id
  let chunk ← (r.chunk record.data.connectionList).within
    ("map " ++ Quoted.quote record.data.name)
  let warps ← r.warps record.data
  let npcs ← r.npcs record.data.objectList
  let palettes ← r.palettes record.layout.primary record.layout.secondary
  let music ← r.music record.data.music
  return ⟨id, r.name record.data.name, chunk, warps, npcs, record.layout.width,
    record.layout.height, palettes, music, tiles.tiles, tiles.movements, tiles.border⟩

/-- Converts a record: fetches its tiles and resolves it. A record whose tiles do not fit
its size is skipped. -/
def convert (r : Resolver) (blob : Bytes → Except Failure Bytes) (record : Raw.Record) :
    Traced (Option WorldMap) := do
  let tiles ← Traced.lift (blob record.layout.tilesPath)
  let border ← Traced.lift (blob record.layout.borderPath)
  let count := record.layout.width.toNat * record.layout.height.toNat
  match Tiles.decode tiles border (Int64.ofNat count) with
  | none => return none
  | some decoded => return some (← r.resolve record decoded)

end Resolver

end Overworld
