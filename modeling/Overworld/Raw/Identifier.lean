import Overworld.Dict
import Overworld.Log

/-!
# Raw identifiers

Source documents name a map by a mark of four bytes and a remainder. A location is
derived from it by fitting the remainder into the width of an index, unless the
mappings give the identifier a location of its own.
-/

set_option autoImplicit false

namespace Overworld.Identifier

def markLength : Nat := 4

def headLength : Nat := 12

def tailLength : Nat := 4

/-- Whether a byte is visible ASCII, which excludes the space. -/
def isVisible (b : UInt8) : Bool := 0x21 ≤ b && b ≤ 0x7E

/-- Keeps a short text whole, and of a longer one its beginning and its end. -/
def shorten (s : Bytes) : Bytes :=
  if s.length < Location.maxWidth then s
  else s.take headLength ++ s.drop (s.length - tailLength)

def truncate (raw : Bytes) : Except Failure Bytes :=
  if raw.length ≤ markLength then fail (.identifierEmpty raw)
  else match (raw.drop markLength).find? fun b => !isVisible b with
    | some b => fail (.identifierByte raw b)
    | none => .ok (shorten (raw.drop markLength))

/-- The location of a raw identifier: the override if there is one, else its index
in the scope of derived locations. Deriving is logged. -/
def derive (overrides : Dict Location) (raw : Bytes) : Traced Location :=
  match overrides.find? raw with
  | some l => pure l
  | none => do
    Traced.report .debug "no location override; deriving" [("raw_id", .text (Utf8.shown raw))]
    let index ← Traced.lift (truncate raw)
    return ⟨Location.derivedScope, index⟩

end Overworld.Identifier
