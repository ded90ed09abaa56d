import Overworld.Action
import Overworld.FileSystem.Path
import Overworld.Snapshot

/-!
# The snapshot file

Keeps the table of a source in a file, so that later runs need not retrieve it. What the
file holds is taken as it is. A file that cannot be read is made anew.
-/

set_option autoImplicit false

namespace Overworld.Snapshot

open Raw (Table)

def load (path : Bytes) : Action Table := do
  let bytes ← (Action.readFile path).within ("reading snapshot " ++ Utf8.shown path)
  Action.ofExcept (decode bytes)

def place (temporary path contents : Bytes) : Action Unit := do
  (Action.change fun fs => fs.append temporary contents).within "writing snapshot"
  (Action.change fun fs => fs.close temporary).within "closing snapshot"
  (Action.change fun fs => fs.rename temporary path).within "renaming snapshot into place"

/-- Writes the table to a file. The file is complete before it gets its path, and nothing
temporary stays behind. -/
def save (w : Writer) (path : Bytes) (t : Table) : Action Unit := do
  let contents ← Action.ofExcept (encode w t)
  let dir := Path.directory path
  (Action.change fun fs => fs.mkdirAll dir).within
    ("creating snapshot directory " ++ Utf8.shown dir)
  let temporary ← (Action.createTemp dir (Path.base path)).within "creating snapshot temp file"
  (place temporary path contents).thenAlways fun fs => (fs.remove temporary).files

/-- Whether a failure to read a snapshot lets the run go on with a new one. -/
def isRecoverable (f : Failure) : Bool := f.cause ≠ .missingRecord

def loadOrBuild (w : Writer) (path : Bytes) (build : Action Table) : Action Table := do
  let shown := Utf8.shown path
  match ← (load path).attempt with
  | .ok t =>
    Action.report .info "loaded snapshot" [("path", .text shown), ("maps", .number t.size)]
    return t
  | .error f =>
    if isRecoverable f then
      Action.report .warn "snapshot cannot be read; rebuilding"
        [("path", .text shown), ("error", .text f.message)]
      let t ← build.within "rebuilding snapshot"
      save w path t
      Action.report .info "wrote snapshot" [("path", .text shown), ("maps", .number t.size)]
      return t
    else Action.ofExcept (.error f)

def discard (path : Bytes) : Action Unit := do
  match ← (Action.change fun fs => fs.remove path).attempt with
  | .ok () => return ()
  | .error f =>
    if f.isNotFound then return ()
    else Action.ofExcept (.error (f.within ("removing snapshot " ++ Utf8.shown path)))

end Overworld.Snapshot
