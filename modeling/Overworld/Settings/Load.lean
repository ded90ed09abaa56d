import Overworld.FileSystem
import Overworld.Settings
import Overworld.Settings.Duration
import Overworld.Settings.Value

/-!
# Loading settings

A setting comes from the environment, else from the settings file, else it is the usual one.
In the file a setting stands in the group of its area, or under a dotted name at the root.
-/

set_option autoImplicit false

namespace Overworld.Settings

/-- Where settings come from: the entries of a file, and the variables of the environment. -/
structure Inputs where
  file : List (Bytes × Value)
  environment : List (Bytes × Bytes)

structure Key where
  area : String
  name : String
  usual : Value

namespace Inputs

def variableName (parts : List String) : Bytes :=
  utf8 ("_".intercalate ("worldgen" :: parts)) |> Bytes.upper

/-- A variable of the environment; an empty one counts as not set. -/
def override? (i : Inputs) (parts : List String) : Option Bytes :=
  match i.environment.lookup (variableName parts) with
  | some [] => none
  | v => v

def entry? (entries : List (Bytes × Value)) (name : String) : Option Value :=
  match entries.lookup (utf8 name) with
  | some .null => none
  | v => v

/-- A setting in the file. The dotted name counts before the group. -/
def inFile? (i : Inputs) (k : Key) : Option Value :=
  match entry? i.file (k.area ++ "." ++ k.name) with
  | some v => some v
  | none =>
    match entry? i.file k.area with
    | some (.group entries) => entry? entries k.name
    | _ => none

/-- A setting of an area that is a group or absent. A variable for the whole area leaves
its settings unset. -/
def ofGroup (i : Inputs) (k : Key) : Value :=
  match i.override? [k.area, k.name] with
  | some v => .text v
  | none =>
    if (i.override? [k.area]).isSome then .null else (i.inFile? k).getD k.usual

/-- The value of a setting, null where it is unset. An area that is no group takes the place of
its settings: null stands for the usual ones, a time has none, anything else is refused. -/
def value (i : Inputs) (k : Key) : Except Failure Value :=
  match i.file.lookup (utf8 k.area) with
  | none | some (.group _) => .ok (i.ofGroup k)
  | some v =>
    if (i.override? [k.area]).isSome then fail .decode
    else match v with
      | .null => .ok k.usual
      | .timestamp => .ok .null
      | _ => fail .decode

def get {α : Type} (i : Inputs) (read : Value → Option α) (k : Key) : Except Failure α := do
  match read (← i.value k) with
  | some x => .ok x
  | none => fail .decode

end Inputs

/-- A value as a duration: a text with units, or a number of nanoseconds. -/
def Value.toDuration : Value → Option Int64
  | .text s => Duration.read s
  | v => v.toInteger

def names : List (String × List String) :=
  [("source", ["base_url", "dir", "requests_per_second", "burst", "timeout"]),
    ("snapshot", ["path"]), ("mappings", ["path"]), ("assembly", ["workers"]), ("output", ["dir"]),
    ("logging", ["level", "format", "file", "max_size_mb", "max_backups"])]

def variableNames : List Bytes :=
  names.flatMap fun (area, settings) =>
    Inputs.variableName [area] :: settings.map fun name => Inputs.variableName [area, name]

def collect (i : Inputs) : Except Failure Settings := do
  let text (s n usual : String) := i.get Value.toText ⟨s, n, .text (utf8 usual)⟩
  let integer (s n : String) (usual : Int) := i.get Value.toInteger ⟨s, n, .int usual⟩
  let baseUrl ← text "source" "base_url"
    "https://raw.githubusercontent.com/pret/pokefirered/master"
  let dir ← text "source" "dir" ""
  let rate ← i.get Value.toNumber ⟨"source", "requests_per_second", .int 20⟩
  let burst ← integer "source" "burst" 5
  let timeout ← i.get Value.toDuration ⟨"source", "timeout", .text (utf8 "30s")⟩
  let snapshotPath ← text "snapshot" "path" "parsed.bin"
  let mappingsPath ← text "mappings" "path" "configs/mappings.yaml"
  let workers ← integer "assembly" "workers" 8
  let outputDir ← text "output" "dir" "maps"
  let level ← text "logging" "level" "info"
  let format ← text "logging" "format" "console"
  let file ← text "logging" "file" ""
  let maxSize ← integer "logging" "max_size_mb" 10
  let maxBackups ← integer "logging" "max_backups" 3
  return ⟨⟨baseUrl, dir, rate, burst, timeout⟩, snapshotPath, mappingsPath, workers, outputDir,
    ⟨level, format, file, maxSize, maxBackups⟩⟩

/-- The forms that the end of a file's name may tell for settings. Of these only YAML and
JSON can be read. -/
def forms : List String :=
  ["json", "toml", "yaml", "yml", "properties", "props", "prop", "hcl", "tfvars", "dotenv", "env",
    "ini"]

def readFile (fs : FileSystem) (path : Bytes) : Except Failure (List (Bytes × Value)) := do
  let form := (Path.suffix path).drop 1
  if !(forms.map utf8).contains form then fail .config
  else
    let s ← fs.readFile path
    let entries :=
      if form = utf8 "yaml" || form = utf8 "yml" then Value.ofYamlDocument s
      else if form = utf8 "json" then Value.ofJsonDocument s
      else none
    match entries with
    | some es => .ok es
    | none => fail .config

def load (fs : FileSystem) (environment : List (Bytes × Bytes)) (path : Bytes) :
    Except Failure Settings := do
  let file ← if path.isEmpty then .ok [] else inStep "reading config file" (readFile fs path)
  let s ← inStep "unmarshalling config" (collect ⟨file, environment⟩)
  s.validate
  return s

end Overworld.Settings
