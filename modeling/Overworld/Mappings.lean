import Overworld.World.Document

/-!
# Name dictionaries

Which names of the source stand for which values of the world: locations and display
names of maps, palettes of tilesets, music, and types of characters. The dictionaries
come from one document; a missing file is the same as an empty one.
-/

set_option autoImplicit false

namespace Overworld

open Yaml

structure Mappings where
  locations : Dict Location
  names : Dict Bytes
  primary : Dict UInt8
  secondary : Dict UInt8
  music : Dict Bytes
  npcs : Dict Bytes
  deriving DecidableEq, Repr

namespace Mappings

def empty : Mappings := ⟨Dict.empty, Dict.empty, Dict.empty, Dict.empty, Dict.empty, Dict.empty⟩

instance : Inhabited Mappings := ⟨empty⟩

def defaultPrimary : UInt8 := 0

def defaultSecondary : UInt8 := 13

def defaultMusic : Bytes := utf8 "pallet"

def isShort (s : Bytes) : Bool := !s.isEmpty && s.length ≤ Location.maxWidth

def validateLocation (e : Bytes × Location) : Except Failure Unit :=
  inStep ("map.id[" ++ Quoted.quote e.1 ++ "]") e.2.validate

def validateMusic (e : Bytes × Bytes) : Except Failure Unit :=
  if isShort e.2 then .ok ()
  else inStep ("music[" ++ Quoted.quote e.1 ++ "]") (fail (.trackWidth e.2))

def validateNpc (e : Bytes × Bytes) : Except Failure Unit :=
  if isShort e.2 then .ok ()
  else inStep ("npcs[" ++ Quoted.quote e.1 ++ "]") (fail (.typeWidth e.2))

def validate (m : Mappings) : Except Failure Unit := do
  m.locations.entries.forM validateLocation
  m.music.entries.forM validateMusic
  m.npcs.entries.forM validateNpc

def mapDecoder : Decoder (Dict Location × Dict Bytes) := fun s n => do
  match ← Decoder.record [utf8 "id", utf8 "name"] s n with
  | none => return none
  | some es =>
    return some (← Entry.field es "id" (Decoder.dict true default Location.decoder) Dict.empty,
      ← Entry.field es "name" (Decoder.dict true [] Decoder.text) Dict.empty)

def paletteDecoder : Decoder (Dict UInt8 × Dict UInt8) := fun s n => do
  match ← Decoder.record [utf8 "primary", utf8 "secondary"] s n with
  | none => return none
  | some es =>
    return some (← Entry.field es "primary" (Decoder.dict true 0 WorldMap.octet) Dict.empty,
      ← Entry.field es "secondary" (Decoder.dict true 0 WorldMap.octet) Dict.empty)

def decoder : Decoder Mappings := fun s n => do
  match ← Decoder.record [utf8 "map", utf8 "palettes", utf8 "music", utf8 "npcs"] s n with
  | none => return none
  | some es =>
    let (locations, names) ← Entry.field es "map" mapDecoder default
    let (primary, secondary) ← Entry.field es "palettes" paletteDecoder default
    let music ← Entry.field es "music" (Decoder.dict true [] Decoder.text) Dict.empty
    let npcs ← Entry.field es "npcs" (Decoder.dict true [] Decoder.text) Dict.empty
    return some ⟨locations, names, primary, secondary, music, npcs⟩

def outline : Outline :=
  .ofFields [("map", .ofFields [("id", .dict true Location.outline), ("name", .dict true .scalar)]),
    ("palettes", .ofFields [("primary", .dict true .scalar), ("secondary", .dict true .scalar)]),
    ("music", .dict true .scalar), ("npcs", .dict true .scalar)]

def parse (s : Bytes) : Except Failure Mappings := do
  match Document.decode outline decoder empty s with
  | none => inStep "parsing mappings" (fail .yaml)
  | some m =>
    inStep "validating mappings" m.validate
    return m

structure Loaded where
  outcome : Except Failure Mappings
  found : Bool

/-- Reads the dictionaries from a file. Without a file they are empty. -/
def load (fs : FileSystem) (p : Bytes) : Loaded :=
  match fs.readFile p with
  | .error f =>
    if f.isNotFound then ⟨.ok empty, false⟩
    else ⟨.error (f.within ("reading mappings file " ++ Utf8.shown p)), false⟩
  | .ok s => ⟨inStep (Utf8.shown p) (parse s), true⟩

end Mappings

end Overworld
