import Overworld.FileSystem
import Overworld.Log

/-!
# Actions

A step of a run that may look at files, change them, log, and fail. What it logged and
changed before a failure stays.
-/

set_option autoImplicit false

namespace Overworld

/-- How an action ended: what it logged, the files as it left them, its result, and the files after
each of its requests, as somebody else could have met them. -/
structure Ended (α : Type) where
  log : List Log.Entry
  files : FileSystem
  outcome : Except Failure α
  passed : List FileSystem

/-- A step that may look at files, change them, log, and fail. -/
def Action (α : Type) : Type := FileSystem → Ended α

namespace Action

variable {α β : Type}

def andThen (a : Action α) (f : α → Action β) : Action β := fun fs =>
  let e := a fs
  match e.outcome with
  | .ok x =>
    let e' := f x e.files
    ⟨e.log ++ e'.log, e'.files, e'.outcome, e.passed ++ e'.passed⟩
  | .error failure => ⟨e.log, e.files, .error failure, e.passed⟩

instance : Monad Action where
  pure x := fun fs => ⟨[], fs, .ok x, []⟩
  bind := andThen

def ofExcept (r : Except Failure α) : Action α := fun fs => ⟨[], fs, r, []⟩

def ofTraced (t : Traced α) : Action α := fun fs => ⟨t.log, fs, t.outcome, []⟩

def report (level : Log.Level) (text : String) (fields : List (String × Log.Value)) :
    Action Unit :=
  ofTraced (Traced.report level text fields)

def files : Action FileSystem := fun fs => ⟨[], fs, .ok fs, []⟩

def change (f : FileSystem → FileSystem.Change) : Action Unit := fun fs =>
  let c := f fs
  ⟨[], c.files, c.outcome, [c.files]⟩

def readFile (p : Bytes) : Action Bytes := fun fs => ⟨[], fs, fs.readFile p, []⟩

def createTemp (dir name : Bytes) : Action Bytes := fun fs =>
  let made := fs.createTemp dir name
  ⟨[], made.2, made.1, [made.2]⟩

def within (step : String) (a : Action α) : Action α := fun fs =>
  let e := a fs
  ⟨e.log, e.files, inStep step e.outcome, e.passed⟩

def attempt (a : Action α) : Action (Except Failure α) := fun fs =>
  let e := a fs
  ⟨e.log, e.files, .ok e.outcome, e.passed⟩

/-- The same action, then an undoing that happens also after a failure. -/
def thenAlways (a : Action α) (undo : FileSystem → FileSystem) : Action α := fun fs =>
  let e := a fs
  let undone := undo e.files
  ⟨e.log, undone, e.outcome, e.passed ++ [undone]⟩

end Action

end Overworld
