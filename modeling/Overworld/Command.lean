import Overworld.Command.Options
import Overworld.Generation
import Overworld.Log.Logger
import Overworld.Settings.Load
import Overworld.Source.Directory
import Overworld.Source.Web

/-!
# The command

One run of the command on given files: what it says, the code it ends with, and the files
that it leaves. Nothing is printed here.
-/

set_option autoImplicit false

namespace Overworld.Command

structure Setting where
  environment : List (Bytes × Bytes)
  files : FileSystem
  transport : Bytes → Source.Response
  runId : Bytes

/-- What a run says: how it is used, a plain line, or a line of its log. -/
inductive Said where
  | usage (line : String)
  | plain (line : String)
  | logged (format : Log.Format) (line : Log.Line)

structure Report where
  said : List Said
  code : Nat
  files : FileSystem

/-- Logs why a step failed, as the last thing that happens. A fault in the program's own data is
not logged. -/
def orFatal {α : Type} (text : String) (a : Action α) : Action α := do
  match ← a.attempt with
  | .ok x => return x
  | .error f =>
    if f.cause ≠ .missingRecord then
      Action.report .fatal text [("error", .text f.message)]
    Action.ofExcept (.error f)

def loadMappings (path : Bytes) : Action Mappings := do
  let loaded := Mappings.load (← Action.files) path
  let m ← Action.ofExcept loaded.outcome
  if !loaded.found then
    Action.report .warn "mappings file not found; using empty dictionaries"
      [("path", .text (Utf8.shown path))]
  return m

/-- How the source is read: from a directory if one is set. -/
def fetcher (s : Settings.Source) (transport : Bytes → Source.Response) :
    FileSystem → Source.Fetch := fun fs path =>
  if s.dir.isEmpty then
    ((Source.Site.mk s.baseUrl s.rate s.burst.toInt).fetch transport ⟨false, none⟩ 0 path).outcome
  else Source.fetchFile fs s.dir path

def announce (s : Settings.Source) : Action Unit :=
  if s.dir.isEmpty then
    Action.report .info "reading source over http" [("base_url", .text (Utf8.shown s.baseUrl))]
  else
    Action.report .info "reading source from directory" [("dir", .text (Utf8.shown s.dir))]

def generate (s : Settings) (rebuild : Bool) (setting : Setting) : Action Unit := do
  let mappings ← orFatal "loading mappings" (loadMappings s.mappingsPath)
  announce s.source
  if rebuild then orFatal "discarding snapshot" (Snapshot.discard s.snapshotPath)
  let plan : Generation.Plan :=
    { mappings, snapshot := s.snapshotPath, output := s.outputDir, runId := setting.runId }
  let manifest ← orFatal "world generation failed"
    (Generation.run plan (fetcher s.source setting.transport))
  Action.report .info "world generation complete"
    [("maps", .number manifest.count), ("output", .text (Utf8.shown s.outputDir))]

def keepLines (path : Bytes) (lines : List Log.Line) (fs : FileSystem) : FileSystem :=
  if lines.isEmpty then fs
  else
    let made := (fs.mkdirAll (Path.directory path)).files
    let old := ((made.readFile path).toOption.getD [])
    let new := lines.flatMap fun l => utf8 (l.json l.entry.level.capitalName ++ "\n")
    (made.writeFile path (old ++ new)).files

def exitCode (outcome : Except Failure Unit) : Nat :=
  match outcome with
  | .ok () => 0
  | .error ⟨_, .missingRecord⟩ => 2
  | .error _ => 1

def stopped (setting : Setting) (step : String) (f : Failure) : Report :=
  ⟨[.plain (f.within step).message], 1, setting.files⟩

def runWith (s : Settings) (logger : Log.Logger) (rebuild : Bool) (setting : Setting) : Report :=
  let ended := generate s rebuild setting setting.files
  let lines := logger.lines ended.log
  let files := match logger.file with
    | some path => keepLines path lines ended.files
    | none => ended.files
  ⟨lines.map (Said.logged logger.format), exitCode ended.outcome, files⟩

def runOptions (o : Options) (setting : Setting) : Report :=
  match Settings.load setting.files setting.environment o.config with
  | .error f => stopped setting "loading config" f
  | .ok s =>
    let s := if o.output.isEmpty then s else { s with outputDir := o.output }
    match Log.Logger.ofSettings s.logging with
    | .error f => stopped setting "initializing logger" f
    | .ok logger => runWith s logger o.rebuild setting

def run (arguments : List Bytes) (setting : Setting) : Report :=
  match Request.ofArguments arguments with
  | .help => ⟨usage.map Said.usage, 0, setting.files⟩
  | .fault text => ⟨(text :: usage).map Said.usage, 2, setting.files⟩
  | .options o => runOptions o setting

end Overworld.Command
