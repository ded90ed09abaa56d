import Overworld.FileSystem.Path
import Overworld.Json.Document
import Overworld.Number.Shortest
import Overworld.Text.LowerCase
import Overworld.Yaml.Expansion

/-!
# Values in a settings file

A settings file is a YAML or a JSON document with a mapping at its root. Names are in
lower case. Where a setting wants another type, a value may be converted.
-/

set_option autoImplicit false

namespace Overworld.Settings

/-- A value in a settings file. What a list holds is of no use, so only that it is one is kept. -/
inductive Value where
  | null
  | flag (b : Bool)
  | int (n : Int)
  | number (x : Binary64)
  | timestamp
  | text (s : Bytes)
  | list
  | group (entries : List (Bytes × Value))

namespace Value

/-- The entries under names in lower case. Of entries with one name the last counts. -/
def groupOf (entries : List (Bytes × Value)) : Value :=
  .group (Dict.ofList (entries.map fun (k, v) => (Bytes.lowerName k, v))).entries

def ofScalar : Yaml.Value → Value
  | .null => .null
  | .bool b => .flag b
  | .int n => .int n
  | .float x => .number x
  | .timestamp => .timestamp
  | .text s => .text s

/-- Reads any YAML node, and all of it, since a fault anywhere spoils the file. The number
bounds how deep nodes nest. -/
def decoder : Nat → Yaml.Decoder Value
  | 0 => fun _ _ => none
  | fuel + 1 => fun s n => do
    let (inner, target) ← s.enter n
    match target with
    | .scalar tag style written =>
      match ← Yaml.Value.ofScalar tag style written with
      | .null => return none
      | v => return some (ofScalar v)
    | .sequence _ items =>
      let _ ← items.mapM (decoder fuel inner)
      return some .list
    | _ =>
      let entries ← Yaml.Decoder.dict true .null (decoder fuel) s n
      return entries.map fun d => groupOf d.entries

mutual

def ofJson : Json.Tree → Value
  | .null => .null
  | .flag b => .flag b
  | .number x => .number x
  | .text s => .text s
  | .items _ => .list
  | .fields es => groupOf (ofFields es)

def ofFields : List (Bytes × Json.Tree) → List (Bytes × Value)
  | [] => []
  | (k, t) :: es => (k, ofJson t) :: ofFields es

end

def rootEntries : Value → Option (List (Bytes × Value))
  | .group entries => some entries
  | .null => some []
  | _ => none

def ofYamlDocument (s : Bytes) : Option (List (Bytes × Value)) := do
  (← Yaml.Document.decode .any (decoder (s.length + 1)) .null s).rootEntries

def ofJsonDocument (s : Bytes) : Option (List (Bytes × Value)) := do
  (ofJson (← Json.Tree.read s)).rootEntries

def ofFlag (b : Bool) : Int := if b then 1 else 0

/-- The value as a text. Numbers are written out, without an exponent. -/
def toText : Value → Option Bytes
  | .null => some []
  | .flag b => some (Bytes.ofInt (ofFlag b))
  | .int n => some (Bytes.ofInt n)
  | .number x => some (utf8 x.plain)
  | .text s => some s
  | _ => none

/-- The integer part of a number of 64 bits; the least integer stands for any other. -/
def cutOff (x : Binary64) : Int64 :=
  match x.truncate with
  | some n =>
    if -0x8000000000000000 ≤ n && n < 0x8000000000000000 then Int64.ofInt n else Int64.minValue
  | none => Int64.minValue

/-- The value as an integer. A text may be in any base that it names, and the empty one is zero. -/
def toInteger : Value → Option Int64
  | .null => some 0
  | .flag b => some (Int64.ofInt (ofFlag b))
  | .int n => some (Int64.ofInt n)
  | .number x => some (cutOff x)
  | .text [] => some 0
  | .text s => (Number.readIntAnyBase s).toOption.map Int64.ofInt
  | _ => none

def toNumber : Value → Option Binary64
  | .null => some Binary64.zero
  | .flag b => some (Binary64.ofInt (ofFlag b))
  | .int n => some (Binary64.ofInt n)
  | .number x => some x
  | .text [] => some Binary64.zero
  | .text s => (Binary64.read s).toOption
  | _ => none

end Value

end Overworld.Settings
