import Overworld.Failure

/-!
# Logs

Steps that report what they do return their log entries, in order, beside their
outcome. Nothing is printed here.
-/

set_option autoImplicit false

namespace Overworld

namespace Log

inductive Level where
  | debug | info | warn | error | fatal
  deriving DecidableEq, Repr

def Level.name : Level → String
  | .debug => "debug"
  | .info => "info"
  | .warn => "warn"
  | .error => "error"
  | .fatal => "fatal"

inductive Value where
  | text (s : String)
  | number (n : Int)
  deriving DecidableEq, Repr

structure Entry where
  level : Level
  text : String
  fields : List (String × Value)
  deriving DecidableEq, Repr

end Log

/-- A value, or the failure that stood in its way, with the entries logged up to
then. -/
structure Traced (α : Type) where
  log : List Log.Entry
  outcome : Except Failure α

namespace Traced

variable {α β : Type}

/-- Runs one step after another. After a failure nothing more is logged. -/
def andThen (t : Traced α) (f : α → Traced β) : Traced β :=
  match t.outcome with
  | .ok a =>
    let r := f a
    ⟨t.log ++ r.log, r.outcome⟩
  | .error e => ⟨t.log, .error e⟩

instance : Monad Traced where
  pure a := ⟨[], .ok a⟩
  bind := andThen

def report (level : Log.Level) (text : String) (fields : List (String × Log.Value)) :
    Traced Unit :=
  ⟨[⟨level, text, fields⟩], .ok ()⟩

def lift (r : Except Failure α) : Traced α := ⟨[], r⟩

def within (step : String) (t : Traced α) : Traced α := ⟨t.log, inStep step t.outcome⟩

end Traced

end Overworld
