import Overworld.Command
import Overworld.Command.RunId

/-!
# The program

Runs the command on the disk. The files that a run can read are taken into memory before, and what
the run changed is carried out on the disk afterwards.
-/

set_option autoImplicit false

namespace Overworld.Program

def addFile (fs : FileSystem) (p contents : Bytes) : FileSystem :=
  ((fs.mkdirAll (Path.directory p)).files.writeFile p contents).files

/-- Takes what stands at a path. A directory is taken with what is below it, up to a depth. -/
def take (depth : Nat) (fs : FileSystem) (p : Bytes) : IO FileSystem := do
  let here := (← IO.currentDir) / Utf8.shown p
  if ← here.isDir then
    let made := (fs.mkdirAll p).files
    match depth with
    | 0 => return made
    | depth + 1 =>
      (← here.readDir).foldlM (fun fs e => take depth fs (Path.join [p, utf8 e.fileName])) made
  else if ← here.pathExists then
    return addFile fs p (← IO.FS.readBinFile here).toList
  else return fs

def sourceDepth : Nat := 16

def takeAll (s : Settings) (output : Bytes) (fs : FileSystem) : IO FileSystem := do
  let mut fs ← take 1 fs output
  for p in [s.mappingsPath, s.snapshotPath, s.logging.file] do
    if !p.isEmpty then fs ← take 1 fs p
  if !s.source.dir.isEmpty then fs ← take sourceDepth fs s.source.dir
  return fs

/-- Carries out on the disk what changed between two states. -/
def carryOut (before after : FileSystem) : IO Unit := do
  for (path, entry) in after.entries.entries do
    if before.entries.find? path != some entry then
      let here := (← IO.currentDir) / ("/" ++ Utf8.shown path)
      match entry with
      | .directory => IO.FS.createDirAll here
      | .file contents => IO.FS.writeBinFile here ⟨contents.toArray⟩
  for path in before.entries.keys do
    if !after.entries.contains path then
      IO.FS.removeFile ((← IO.currentDir) / ("/" ++ Utf8.shown path))

def say : Command.Said → IO Unit
  | .usage line | .plain line => IO.eprintln line
  | .logged .json line => IO.eprintln (line.json line.entry.level.name)
  | .logged .console line => IO.eprintln line.console

def startFiles : IO FileSystem := do
  let cwd := utf8 (← IO.currentDir).toString
  let start := (Path.components cwd).filter (!·.isEmpty)
  let seed := (← IO.getRandomBytes 4).foldl (fun n b => 256 * n + b.toUInt32) 0
  return { (FileSystem.empty.mkdirAll cwd).files with
    start := start, draws := fun i => seed + UInt32.ofNat i }

def environment : IO (List (Bytes × Bytes)) := do
  let mut found := []
  for name in Settings.variableNames do
    if let some value ← IO.getEnv (Utf8.shown name) then
      found := found ++ [(name, utf8 value)]
  return found

end Overworld.Program

open Overworld in
def main (arguments : List String) : IO UInt32 := do
  let arguments := arguments.map utf8
  let environment ← Program.environment
  let mut files ← Program.startFiles
  if let .options o := Command.Request.ofArguments arguments then
    if !o.config.isEmpty then files ← Program.take 0 files o.config
    if let .ok s := Settings.load files environment o.config then
      files ← Program.takeAll s (if o.output.isEmpty then s.outputDir else o.output) files
  let id := Command.runId (← IO.getRandomBytes 16).toList
  let report := Command.run arguments ⟨environment, files, Source.refused, id⟩
  Program.carryOut files report.files
  report.said.forM Program.say
  return report.code.toUInt32
