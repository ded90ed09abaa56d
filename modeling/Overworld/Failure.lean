import Overworld.Number.Integer
import Overworld.Text.Quoted
import Overworld.World.Location

/-!
# Failures

A failure is a cause and the steps around it, outermost first. The wording of
every cause is fixed here. Of a document in a foreign format only the format is
named, in angle brackets, when it cannot be read.
-/

set_option autoImplicit false

namespace Overworld

inductive FileReason where
  | notFound
  | notDirectory
  | isDirectory
  | invalidName
  | nameTooLong
  | notEmpty
  | alreadyExists
  | busy
  | other (text : String)
  deriving DecidableEq, Repr

def FileReason.message : FileReason → String
  | .notFound => "no such file or directory"
  | .notDirectory => "not a directory"
  | .isDirectory => "is a directory"
  | .invalidName => "invalid argument"
  | .nameTooLong => "file name too long"
  | .notEmpty => "directory not empty"
  | .alreadyExists => "file exists"
  | .busy => "device or resource busy"
  | .other text => text

inductive Cause where
  | emptyIndex
  | wideIndex (index : Bytes)
  | wideScope (scope : Bytes)
  | unknownDirection (text : Bytes)
  | tileCount (tiles width height : Nat)
  | movementCount (movements width height : Nat)
  | emptyChunk
  | identifierEmpty (raw : Bytes)
  | identifierByte (raw : Bytes) (byte : UInt8)
  | duplicateRecord (id first second : Bytes)
  | duplicateLocation (location : Location) (name existing : Bytes)
  | warpOutOfRange (owner : Bytes) (warp : Nat) (index : Int) (target : Bytes) (count : Nat)
  | warpIndex (raw seen : Bytes) (reason : Number.ReadError)
  | invalidRecord (violations : List String)
  | unknownLayout (layout : Bytes)
  | missingGroupOrder
  | missingGroup (group : Bytes)
  | trackWidth (id : Bytes)
  | typeWidth (id : Bytes)
  | pathEscapes (path : Bytes)
  | file (request : String) (path : Bytes) (reason : FileReason)
  | rename (old new : Bytes) (reason : FileReason)
  | status (text : String)
  | json
  | yaml
  | config
  | decode
  | url
  | snapshotMark
  | snapshotBody
  | snapshotDuplicate (id first second : Bytes)
  /-- A snapshot with a gap in its list of records, which ends the run. -/
  | missingRecord
  | invalidSettings (violations : List String)
  | unknownLevel (text : Bytes)
  | unknownFormat (text : Bytes)
  | canceled
  | other (text : String)
  deriving DecidableEq, Repr

namespace Cause

open Quoted (quote)

private def duplicateText (id first second : Bytes) : String :=
  "duplicate raw map identifier: " ++ quote id ++ " is used by both " ++ quote first ++
    " and " ++ quote second

def message : Cause → String
  | .emptyIndex => "location index must not be empty"
  | .wideIndex index => "location index " ++ quote index ++ " exceeds 16 bytes"
  | .wideScope scope => "location map " ++ quote scope ++ " exceeds 16 bytes"
  | .unknownDirection text => "unknown direction: " ++ quote text
  | .tileCount n w h => s!"{n} tiles for {w}x{h}"
  | .movementCount n w h => s!"{n} movements for {w}x{h}"
  | .emptyChunk => "chunk present without connections"
  | .identifierEmpty raw =>
    "malformed map identifier: " ++ quote raw ++ " has no content after its prefix"
  | .identifierByte raw b =>
    "malformed map identifier: " ++ quote raw ++ " contains byte 0x" ++ Bytes.hexPair b
  | .duplicateRecord id first second => duplicateText id first second
  | .duplicateLocation location name existing =>
    "duplicate world map id " ++ location.shown ++ ": " ++ quote name ++ " collides with " ++
      quote existing
  | .warpOutOfRange owner warp index target count =>
    "warp destination index out of range: map " ++ quote owner ++
      s!" warp {warp} targets warp {index} of " ++ quote target ++ s!", which has {count} warps"
  | .warpIndex raw seen reason =>
    "warp index " ++ Utf8.shown raw ++ ": strconv.Atoi: parsing " ++ quote seen ++ ": " ++
      reason.message
  | .invalidRecord violations => "\n".intercalate violations
  | .unknownLayout layout => "unknown layout " ++ quote layout
  | .missingGroupOrder => "missing group_order"
  | .missingGroup group => "group " ++ quote group ++ " listed in group_order is missing"
  | .trackWidth id => "id " ++ quote id ++ " must be 1-16 bytes"
  | .typeWidth id => "type " ++ quote id ++ " must be 1-16 bytes"
  | .pathEscapes path => "path " ++ quote path ++ " escapes source root"
  | .file request path reason => request ++ " " ++ Utf8.shown path ++ ": " ++ reason.message
  | .rename old new reason =>
    "rename " ++ Utf8.shown old ++ " " ++ Utf8.shown new ++ ": " ++ reason.message
  | .status text => "unexpected status " ++ text
  | .json => "<json>"
  | .yaml => "<yaml>"
  | .config => "<config>"
  | .decode => "<decode>"
  | .url => "<url>"
  | .snapshotMark => "bad snapshot: missing magic"
  | .snapshotBody => "bad snapshot: <snapshot>"
  | .snapshotDuplicate id first second => "bad snapshot: " ++ duplicateText id first second
  | .missingRecord => "missing record"
  | .invalidSettings violations =>
    "configuration validation failed: " ++ "; ".intercalate violations
  | .unknownLevel text => "unrecognized level: " ++ quote text
  | .unknownFormat text => "unknown log format " ++ quote text
  | .canceled => "context canceled"
  | .other text => text

end Cause

structure Failure where
  /-- The steps around the cause, outermost first. -/
  context : List String
  cause : Cause
  deriving DecidableEq, Repr

namespace Failure

def of (cause : Cause) : Failure := ⟨[], cause⟩

def within (step : String) (f : Failure) : Failure := ⟨step :: f.context, f.cause⟩

def message (f : Failure) : String :=
  f.context.foldr (fun step rest => step ++ ": " ++ rest) f.cause.message

def isNotFound (f : Failure) : Bool :=
  match f.cause with
  | .file _ _ .notFound => true
  | _ => false

end Failure

def fail {α : Type} (cause : Cause) : Except Failure α := .error (.of cause)

def inStep {α : Type} (step : String) (r : Except Failure α) : Except Failure α :=
  r.mapError (Failure.within step)

end Overworld
