import Overworld.Failure
import Overworld.Number.Binary64
import Overworld.Web.Url

/-!
# Settings

What a run can be told, the rules that settings have to keep, and the usual settings.
-/

set_option autoImplicit false

namespace Overworld

namespace Settings

/-- Where the source is. A directory counts before an address. -/
structure Source where
  baseUrl : Bytes
  dir : Bytes
  /-- Requests in a second; zero does not throttle. -/
  rate : Binary64
  burst : Int64
  /-- How long a request may take, in nanoseconds. -/
  timeout : Int64
  deriving DecidableEq, Repr

structure Logging where
  level : Bytes
  format : Bytes
  /-- A file for the log; none if empty. -/
  file : Bytes
  /-- The size in megabytes at which a new file is begun. -/
  maxSize : Int64
  maxBackups : Int64
  deriving DecidableEq, Repr

end Settings

structure Settings where
  source : Settings.Source
  snapshotPath : Bytes
  mappingsPath : Bytes
  workers : Int64
  outputDir : Bytes
  logging : Settings.Logging
  deriving DecidableEq, Repr

namespace Settings

inductive Violation where
  | noSource
  | baseUrl (url : Bytes)
  | negativeRate
  | burst (n : Int64)
  | negativeTimeout
  | noSnapshotPath
  | workers (n : Int64)
  | noOutputDir
  | level (level : Bytes)
  | format (format : Bytes)
  | maxSize (n : Int64)
  deriving DecidableEq, Repr

def Violation.message : Violation → String
  | .noSource => "one of source.dir or source.base_url must be set"
  | .baseUrl url => "source.base_url must be an http(s) URL, got " ++ Quoted.quote url
  | .negativeRate => "source.requests_per_second must not be negative"
  | .burst n => "source.burst must be >= 1 when throttling, got " ++ toString n.toInt
  | .negativeTimeout => "source.timeout must not be negative"
  | .noSnapshotPath => "snapshot.path must not be empty"
  | .workers n => "assembly.workers must be >= 1, got " ++ toString n.toInt
  | .noOutputDir => "output.dir must not be empty"
  | .level s =>
    "logging.level must be one of [debug, info, warn, error], got " ++ Quoted.quote s
  | .format s => "logging.format must be one of [json, console], got " ++ Quoted.quote s
  | .maxSize n =>
    "logging.max_size_mb must be >= 1 when logging.file is set, got " ++ toString n.toInt

def when (broken : Bool) (v : Violation) : List Violation := if broken then [v] else []

def isWebUrl (s : Bytes) : Bool :=
  match Url.parse s with
  | some u => u.scheme = utf8 "http" || u.scheme = utf8 "https"
  | none => false

namespace Source

/-- The rules on where the source is: an address matters only without a directory. -/
def location (s : Source) : List Violation :=
  if !s.dir.isEmpty then []
  else if s.baseUrl.isEmpty then [.noSource]
  else when (!isWebUrl s.baseUrl) (.baseUrl s.baseUrl)

def violations (s : Source) : List Violation :=
  s.location ++ when s.rate.isNegative .negativeRate ++
    when (s.rate.isPositive && s.burst < 1) (.burst s.burst) ++
    when (s.timeout < 0) .negativeTimeout

end Source

namespace Logging

def levels : List Bytes := [utf8 "debug", utf8 "info", utf8 "warn", utf8 "error"]

def formats : List Bytes := [utf8 "json", utf8 "console"]

/-- The first rule that logging breaks, if any. -/
def violations (l : Logging) : List Violation :=
  if !levels.contains l.level then [.level l.level]
  else if !formats.contains l.format then [.format l.format]
  else when (!l.file.isEmpty && l.maxSize < 1) (.maxSize l.maxSize)

end Logging

def violations (s : Settings) : List Violation :=
  s.source.violations ++ when s.snapshotPath.isEmpty .noSnapshotPath ++
    when (s.workers < 1) (.workers s.workers) ++ when s.outputDir.isEmpty .noOutputDir ++
    s.logging.violations

def validate (s : Settings) : Except Failure Unit :=
  match s.violations with
  | [] => .ok ()
  | vs => fail (.invalidSettings (vs.map Violation.message))

end Settings

end Overworld
