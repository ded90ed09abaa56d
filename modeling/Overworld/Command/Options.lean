import Overworld.Text.Quoted

/-!
# Options of the command

Options begin with one or two dashes. A value follows after an equals sign or as the next
argument; a switch needs none. The first argument that is no option ends them.
-/

set_option autoImplicit false

namespace Overworld.Command

structure Options where
  config : Bytes
  output : Bytes
  rebuild : Bool
  deriving DecidableEq, Repr

def Options.start : Options := ⟨[], [], false⟩

/-- What arguments come to: options, a request for help, or a fault. -/
inductive Request where
  | options (o : Options)
  | help
  | fault (text : String)
  deriving DecidableEq, Repr

inductive Valued where
  | config
  | output
  deriving DecidableEq, Repr

def Valued.name : Valued → String
  | .config => "config"
  | .output => "output"

def Valued.set (v : Valued) (value : Bytes) (o : Options) : Options :=
  match v with
  | .config => { o with config := value }
  | .output => { o with output := value }

def truth? (s : Bytes) : Option Bool :=
  if (["1", "t", "T", "TRUE", "true", "True"].map utf8).contains s then some true
  else if (["0", "f", "F", "FALSE", "false", "False"].map utf8).contains s then some false
  else none

inductive Argument where
  | ending
  | malformed
  | option (name : Bytes) (value : Option Bytes)
  deriving DecidableEq, Repr

/-- The name and the value around the first equals sign that is not at the beginning. -/
def splitValue : Bytes → Bytes × Option Bytes
  | [] => ([], none)
  | b :: rest =>
    match Bytes.splitAt 0x3D rest with
    | some (before, value) => (b :: before, some value)
    | none => (b :: rest, none)

def named (s : Bytes) : Argument :=
  match s with
  | [] => .malformed
  | b :: _ =>
    if b = 0x2D || b = 0x3D then .malformed
    else
      let (name, value) := splitValue s
      .option name value

def Argument.of : Bytes → Argument
  | [0x2D, 0x2D] => .ending
  | 0x2D :: 0x2D :: s => named s
  | [0x2D] => .ending
  | 0x2D :: s => named s
  | _ => .ending

/-- Reads arguments. The option whose value is to come next is given first. -/
def parse : Option Valued → Options → List Bytes → Request
  | some v, o, value :: rest => parse none (v.set value o) rest
  | some v, _, [] => .fault ("flag needs an argument: -" ++ v.name)
  | none, o, [] => .options o
  | none, o, a :: rest =>
    match Argument.of a with
    | .ending => .options o
    | .malformed => .fault ("bad flag syntax: " ++ Utf8.shown a)
    | .option name value =>
      let valued (v : Valued) : Request :=
        match value with
        | some x => parse none (v.set x o) rest
        | none => parse (some v) o rest
      if name = utf8 "config" then valued .config
      else if name = utf8 "output" then valued .output
      else if name = utf8 "rebuild" then
        match value with
        | none => parse none { o with rebuild := true } rest
        | some x =>
          match truth? x with
          | some b => parse none { o with rebuild := b } rest
          | none =>
            .fault ("invalid boolean value " ++ Quoted.quote x ++ " for -rebuild: parse error")
      else if name = utf8 "help" || name = utf8 "h" then .help
      else .fault ("flag provided but not defined: -" ++ Utf8.shown name)

def Request.ofArguments (arguments : List Bytes) : Request := parse none Options.start arguments

def usage : List String :=
  ["Usage of worldgen:",
    "  -config string",
    "    \tpath to configuration file; empty = defaults and WORLDGEN_ environment",
    "  -output string",
    "    \toutput directory; overrides output.dir",
    "  -rebuild",
    "    \tdiscard the snapshot and retrieve the source again"]

end Overworld.Command
