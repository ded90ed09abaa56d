import Overworld.Action
import Overworld.Digest
import Overworld.World.Document
import Overworld.World.Graph

/-!
# Written graphs

A graph is written as one document a map and a manifest that lists them. Every document
is read back before it is written. The manifest has the digest of the documents, which is taken
while they are written. A map can have several documents, as its entries can be met in several
orders, so what its document is is an argument.
-/

set_option autoImplicit false

namespace Overworld

open Yaml

structure ManifestEntry where
  location : Bytes
  name : Bytes
  file : Bytes
  deriving DecidableEq, Repr

structure Manifest where
  runId : Bytes
  count : Nat
  digest : Bytes
  maps : List ManifestEntry
  deriving DecidableEq, Repr

namespace Manifest

def fileName : Bytes := utf8 "manifest.yaml"

def entryTree (e : ManifestEntry) : Tree :=
  .fields [field "location" (.text e.location), field "name" (.text e.name),
    field "file" (.text e.file)]

def render (m : Manifest) : Bytes :=
  renderFields [field "run_id" (.text m.runId), field "count" (.int m.count),
    field "digest" (.text m.digest), field "maps" (.items (m.maps.map entryTree))]

end Manifest

namespace Location

/-- A byte of a file name: separators become underscores. -/
def fileByte (b : UInt8) : UInt8 := if b = 0x2F || b = 0x5C || b = 0x3A then 0x5F else b

def fileName (l : Location) : Bytes :=
  (if l.scope.isEmpty then l.index else l.scope ++ 0x2E :: l.index).map fileByte ++ utf8 ".yaml"

end Location

namespace Graph

def digestWith (document : WorldMap → Bytes) (g : Graph) : Bytes :=
  let taken := g.toList.foldl (fun r m => r.write (document m)) Digest.Running.start
  Digest.hex taken.value

def digest (g : Graph) : Bytes := g.digestWith WorldMap.render

def writeMapWith (document dir : Bytes) (m : WorldMap) : Action ManifestEntry := do
  let _ ← (Action.ofExcept (WorldMap.load document)).within
    ("map " ++ m.id.shown ++ " failed validation")
  let name := m.id.fileName
  (Action.change fun fs => fs.writeFile (Path.join [dir, name]) document).within
    ("writing map " ++ m.id.shown)
  return ⟨m.id.key, m.name, name⟩

def writeMap (dir : Bytes) (m : WorldMap) : Action ManifestEntry := writeMapWith m.render dir m

/-- Writes maps one after the other and takes their documents into a digest. -/
def writeMaps (document : WorldMap → Bytes) (dir : Bytes) :
    List WorldMap → Digest.Running → Action (List ManifestEntry × Digest.Running)
  | [], taken => return ([], taken)
  | m :: ms, taken => do
    let e ← writeMapWith (document m) dir m
    let (es, taken) ← writeMaps document dir ms (taken.write (document m))
    return (e :: es, taken)

def writeWith (document : WorldMap → Bytes) (g : Graph) (dir runId : Bytes) :
    Action Manifest := do
  (Action.change fun fs => fs.mkdirAll dir).within
    ("creating output directory " ++ Utf8.shown dir)
  let (entries, taken) ← writeMaps document dir g.toList .start
  let manifest : Manifest := ⟨runId, entries.length, Digest.hex taken.value, entries⟩
  (Action.change fun fs => fs.writeFile (Path.join [dir, Manifest.fileName]) manifest.render).within
    "writing manifest"
  return manifest

def write (g : Graph) (dir runId : Bytes) : Action Manifest :=
  g.writeWith WorldMap.render dir runId

end Graph

end Overworld
