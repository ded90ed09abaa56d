import Overworld.Log
import Overworld.Settings
import Overworld.Text.LowerCase

/-!
# Loggers

A logger drops entries below its level and notes which entries come with a trace of the
calls that led to them. A line is one entry that was let through.
-/

set_option autoImplicit false

namespace Overworld.Log

namespace Level

def rank : Level → Nat
  | .debug => 0
  | .info => 1
  | .warn => 2
  | .error => 3
  | .fatal => 4

def capitalName (l : Level) : String := l.name.toUpper

/-- The level of a word in lower case. Levels between error and fatal let the same entries
through as fatal. -/
def ofWord? (s : Bytes) : Option Level :=
  if s = utf8 "debug" then some .debug
  else if s.isEmpty || s = utf8 "info" then some .info
  else if s = utf8 "warn" || s = utf8 "warning" then some .warn
  else if s = utf8 "error" then some .error
  else if [utf8 "dpanic", utf8 "panic", utf8 "fatal"].contains s then some .fatal
  else none

end Level

inductive Format where
  | json
  | console
  deriving DecidableEq, Repr

def Format.tracesFrom : Format → Level
  | .json => .error
  | .console => .warn

structure Line where
  entry : Entry
  traced : Bool
  deriving DecidableEq, Repr

structure Logger where
  threshold : Level
  format : Format
  file : Option Bytes
  deriving DecidableEq, Repr

namespace Logger

def ofSettings (s : Settings.Logging) : Except Failure Logger := do
  let file := if s.file.isEmpty then none else some s.file
  match Level.ofWord? (Bytes.lowerName s.level) with
  | none => inStep ("parsing log level " ++ Quoted.quote s.level) (fail (.unknownLevel s.level))
  | some threshold =>
    if s.format = utf8 "json" then .ok ⟨threshold, .json, file⟩
    else if s.format = utf8 "console" then .ok ⟨threshold, .console, file⟩
    else fail (.unknownFormat s.format)

def enabled (l : Logger) (level : Level) : Bool := l.threshold.rank ≤ level.rank

def lines (l : Logger) (entries : List Entry) : List Line :=
  (entries.filter fun e => l.enabled e.level).map fun e =>
    ⟨e, l.format.tracesFrom.rank ≤ e.level.rank⟩

end Logger

def quoteJson (s : String) : String :=
  let one (c : Char) : String :=
    if c = '"' || c = '\\' then "\\" ++ c.toString
    else if c = '\n' then "\\n"
    else if c = '\r' then "\\r"
    else if c = '\t' then "\\t"
    else if c.toNat < 0x20 then "\\u00" ++ Bytes.hexPair (UInt8.ofNat c.toNat)
    else c.toString
  "\"" ++ String.join (s.toList.map one) ++ "\""

def Value.json : Value → String
  | .text s => quoteJson s
  | .number n => toString n

namespace Line

def members (fields : List (String × String)) : String :=
  ",".intercalate (fields.map fun (k, v) => quoteJson k ++ ":" ++ v)

def object (fields : List (String × String)) : String := "\x7b" ++ members fields ++ "\x7d"

def fields (l : Line) : List (String × String) := l.entry.fields.map fun (k, v) => (k, v.json)

/-- The line in JSON, under a name of its level. There is nothing to say about calls, so a trace
is empty. -/
def json (level : String) (l : Line) : String :=
  object ([("level", quoteJson level), ("msg", quoteJson l.entry.text)] ++ l.fields ++
    if l.traced then [("stacktrace", quoteJson "")] else [])

def console (l : Line) : String :=
  "\t".intercalate ([l.entry.level.capitalName, l.entry.text] ++
    if l.entry.fields.isEmpty then [] else [object l.fields])

end Line

end Overworld.Log
