import Overworld.Dict
import Overworld.Failure
import Overworld.FileSystem.Path

/-!
# Files

A tree of files and directories as a value. Every request says what it changes and
which refusal it meets, in the words of the operating system. What is up to the system
and not to the tree is part of the value too: which requests it refuses, for a full disk
or for want of a permission, and which numbers it draws for temporary names.
-/

set_option autoImplicit false

namespace Overworld

inductive FileEntry where
  | directory
  | file (contents : Bytes)
  deriving DecidableEq, Repr

inductive FileRequest where
  | read | write | mkdir | createTemp | append | close | rename | remove
  deriving DecidableEq, Repr

/-- The requests that the system refuses whatever the tree looks like. It takes the same permission
to make a file in a directory and to remove it from there, so whoever could make a file can remove
it. -/
structure Refusals where
  reason? : FileRequest → Bytes → Option FileReason
  removable : ∀ p, reason? .createTemp p = none → reason? .remove p = none

namespace Refusals

instance : CoeFun Refusals fun _ => FileRequest → Bytes → Option FileReason := ⟨reason?⟩

def never : Refusals := ⟨fun _ _ => none, fun _ _ => rfl⟩

end Refusals

/-- Files and directories under their paths from the root, and the place where paths that are not
rooted begin. -/
structure FileSystem where
  entries : Dict FileEntry
  start : List Bytes := []
  refuses : Refusals := .never
  draws : Nat → UInt32 := fun _ => 0

namespace FileSystem

def empty : FileSystem := { entries := Dict.empty }

instance : Inhabited FileSystem := ⟨empty⟩

def key (place : List Bytes) : Bytes := Bytes.join [Path.slash] place

def at? (fs : FileSystem) (place : List Bytes) : Option FileEntry :=
  if place.isEmpty then some .directory else fs.entries.find? (key place)

def put (fs : FileSystem) (place : List Bytes) (e : FileEntry) : FileSystem :=
  { fs with entries := fs.entries.insert (key place) e }

def erase (fs : FileSystem) (place : List Bytes) : FileSystem :=
  { fs with entries := fs.entries.erase (key place) }

def maxName : Nat := 255

/-- Walks along components from a place. Everything before the last component has to
be a directory. -/
def walk (fs : FileSystem) : List Bytes → List Bytes → Except FileReason (List Bytes)
  | place, [] => .ok place
  | place, c :: rest =>
    match fs.at? place with
    | none => .error .notFound
    | some (.file _) => .error .notDirectory
    | some .directory =>
      if c.isEmpty || c = Path.dot then fs.walk place rest
      else if c = Path.dotDot then fs.walk place.dropLast rest
      else if maxName < c.length then .error .nameTooLong
      else fs.walk (place ++ [c]) rest

def locate (fs : FileSystem) (p : Bytes) : Except FileReason (List Bytes) :=
  if p.contains 0 then .error .invalidName
  else if p.isEmpty then .error .notFound
  else fs.walk (if Path.isRooted p then [] else fs.start) (Path.components p)

def lookup (fs : FileSystem) (p : Bytes) : Except FileReason FileEntry := do
  let place ← fs.locate p
  match fs.at? place with
  | some e => .ok e
  | none => .error .notFound

def isDirectory (fs : FileSystem) (p : Bytes) : Bool :=
  match fs.lookup p with
  | .ok .directory => true
  | _ => false

def refusal {α : Type} (request : String) (p : Bytes) (r : FileReason) : Except Failure α :=
  fail (.file request p r)

def readFile (fs : FileSystem) (p : Bytes) : Except Failure Bytes :=
  match fs.refuses .read p with
  | some r => refusal "open" p r
  | none =>
    match fs.lookup p with
    | .error r => refusal "open" p r
    | .ok .directory => refusal "read" p .isDirectory
    | .ok (.file contents) => .ok contents

/-- A changed file system, or the failure that left it as it is said to be. -/
structure Change where
  files : FileSystem
  outcome : Except Failure Unit

def refused (fs : FileSystem) (request : String) (p : Bytes) (r : FileReason) : Change :=
  ⟨fs, refusal request p r⟩

def writeFile (fs : FileSystem) (p : Bytes) (contents : Bytes) : Change :=
  match fs.refuses .write p with
  | some r => fs.refused "open" p r
  | none =>
    match fs.locate p with
    | .error r => fs.refused "open" p r
    | .ok place =>
      match fs.at? place with
      | some .directory => fs.refused "open" p .isDirectory
      | _ =>
        if p.getLast? = some Path.slash then fs.refused "open" p .isDirectory
        else ⟨fs.put place (.file contents), .ok ()⟩

/-- Makes one directory in an existing one. Slashes after its name do not count. -/
def mkdir (fs : FileSystem) (p : Bytes) : Change :=
  match fs.refuses .mkdir p with
  | some r => fs.refused "mkdir" p r
  | none =>
    match fs.locate (Path.trimEnd p) with
    | .error r => fs.refused "mkdir" p r
    | .ok place =>
      match fs.at? place with
      | some _ => fs.refused "mkdir" p .alreadyExists
      | none => ⟨fs.put place .directory, .ok ()⟩

/-- The path without its last component and the slash before it, if that leaves
anything. -/
def parent? (p : Bytes) : Option Bytes :=
  let trimmed := Bytes.trimRight Path.slash p
  let upTo := trimmed.take (trimmed.length - (Path.lastPart trimmed).length)
  if 1 < upTo.length then some upTo.dropLast else none

def makeLast (p : Bytes) (made : Change) : Change :=
  match made.outcome with
  | .error e => ⟨made.files, .error e⟩
  | .ok () =>
    let c := made.files.mkdir p
    match c.outcome with
    | .ok () => c
    | .error e => if c.files.isDirectory p then ⟨c.files, .ok ()⟩ else ⟨c.files, .error e⟩

/-- Makes a directory and those above it that do not exist. The number bounds how many
may be missing. -/
def mkdirAllWithin (depth : Nat) (fs : FileSystem) (p : Bytes) : Change :=
  match fs.lookup p with
  | .ok .directory => ⟨fs, .ok ()⟩
  | .ok (.file _) => fs.refused "mkdir" p .notDirectory
  | .error _ =>
    makeLast p (match depth, parent? p with
      | n + 1, some above => mkdirAllWithin n fs above
      | _, _ => ⟨fs, .ok ()⟩)

def mkdirAll (fs : FileSystem) (p : Bytes) : Change := mkdirAllWithin p.length fs p

def below (dir name : Bytes) : Bytes :=
  if dir.getLast? = some Path.slash then dir ++ name else dir ++ Path.slash :: name

def tempName (name : Bytes) (drawn : UInt32) : Bytes :=
  name ++ 0x2E :: (Bytes.ofNat drawn.toNat ++ utf8 ".tmp")

def tempTries : Nat := 10000

def createNew (fs : FileSystem) (p : Bytes) : Except FileReason FileSystem :=
  match fs.refuses .createTemp p with
  | some r => .error r
  | none => do
    let place ← fs.locate p
    match fs.at? place with
    | some _ => .error .alreadyExists
    | none => .ok (fs.put place (.file []))

/-- Makes a temporary file under the first drawn name that is not taken, of those from a position
on. -/
def createTempFrom (fs : FileSystem) (dir name : Bytes) :
    Nat → Nat → Except Failure Bytes × FileSystem
  | 0, _ =>
    (refusal "createtemp" (below dir (name ++ utf8 ".*.tmp")) (.other "file already exists"), fs)
  | tries + 1, i =>
    let p := below dir (tempName name (fs.draws i))
    match fs.createNew p with
    | .ok made => (.ok p, made)
    | .error .alreadyExists => createTempFrom fs dir name tries (i + 1)
    | .error r => (refusal "open" p r, fs)

def createTemp (fs : FileSystem) (dir name : Bytes) : Except Failure Bytes × FileSystem :=
  if name.contains Path.slash then
    (refusal "createtemp" (name ++ utf8 ".*.tmp") (.other "pattern contains path separator"), fs)
  else fs.createTempFrom dir name tempTries 0

def append (fs : FileSystem) (p : Bytes) (contents : Bytes) : Change :=
  match fs.refuses .append p with
  | some r => fs.refused "write" p r
  | none =>
    match fs.locate p with
    | .error r => fs.refused "write" p r
    | .ok place =>
      match fs.at? place with
      | some (.file old) => ⟨fs.put place (.file (old ++ contents)), .ok ()⟩
      | _ => fs.refused "write" p .isDirectory

def close (fs : FileSystem) (p : Bytes) : Change :=
  match fs.refuses .close p with
  | some r => fs.refused "close" p r
  | none => ⟨fs, .ok ()⟩

def rename (fs : FileSystem) (old new : Bytes) : Change :=
  match fs.refuses .rename old with
  | some r => ⟨fs, fail (.rename old new r)⟩
  | none =>
    match fs.locate old, fs.locate new with
    | .error r, _ => ⟨fs, fail (.rename old new r)⟩
    | _, .error r => ⟨fs, fail (.rename old new r)⟩
    | .ok source, .ok target =>
      match fs.at? source, fs.at? target with
      | none, _ => ⟨fs, fail (.rename old new .notFound)⟩
      | _, some .directory => ⟨fs, fail (.rename old new .alreadyExists)⟩
      | some e, _ => ⟨(fs.erase source).put target e, .ok ()⟩

def hasBelow (fs : FileSystem) (place : List Bytes) : Bool :=
  fs.entries.keys.any fun k => Bytes.beginsWith k (key place ++ [Path.slash])

def remove (fs : FileSystem) (p : Bytes) : Change :=
  match fs.refuses .remove p with
  | some r => fs.refused "remove" p r
  | none =>
    match fs.locate p with
    | .error r => fs.refused "remove" p r
    | .ok place =>
      match fs.at? place with
      | none => fs.refused "remove" p .notFound
      | some (.file _) => ⟨fs.erase place, .ok ()⟩
      | some .directory =>
        if place.isEmpty then fs.refused "remove" p .invalidName
        else if fs.hasBelow place then fs.refused "remove" p .notEmpty
        else ⟨fs.erase place, .ok ()⟩

def filesBelow (fs : FileSystem) (place : List Bytes) : List (Bytes × Bytes) :=
  let start := if place.isEmpty then [] else key place ++ [Path.slash]
  fs.entries.entries.filterMap fun e =>
    match e.2, Bytes.dropBeginning? start e.1 with
    | .file contents, some name => some (name, contents)
    | _, _ => none

end FileSystem

end Overworld
