import Overworld.Failure

/-!
# Directions

The four sides on which a map can touch another.
-/

set_option autoImplicit false

namespace Overworld

inductive Direction where
  | up | down | left | right
  deriving DecidableEq, Repr

namespace Direction

/-- The directions in the order in which reports list them. -/
def all : List Direction := [.up, .down, .left, .right]

def name : Direction → Bytes
  | .up => utf8 "up"
  | .down => utf8 "down"
  | .left => utf8 "left"
  | .right => utf8 "right"

def ofName? (s : Bytes) : Option Direction := all.find? fun d => d.name == s

def parse (s : Bytes) : Except Failure Direction :=
  match ofName? s with
  | some d => .ok d
  | none => fail (.unknownDirection s)

def opposite : Direction → Direction
  | .up => .down
  | .down => .up
  | .left => .right
  | .right => .left

end Direction

end Overworld
