import Overworld.Failure

/-!
# Warp indices

The number of a warp is written as a number or as a quoted number.
-/

set_option autoImplicit false

namespace Overworld.Raw.WarpIndex

def unquoted (raw : Bytes) : Bytes := (Quoted.unquote raw).getD raw

def parse (raw : Bytes) : Except Cause Int64 :=
  match Number.readInt 10 (unquoted raw) with
  | .ok n => .ok (Int64.ofInt n)
  | .error reason => .error (.warpIndex raw (unquoted raw) reason)

/-- An index after an attempt to read another one into it. -/
structure Assigned where
  value : Int64
  outcome : Except Cause Unit

/-- Reads the number of a warp into an index. A text that is refused leaves the index. -/
def assign (old : Int64) (raw : Bytes) : Assigned :=
  match parse raw with
  | .ok n => ⟨n, .ok ()⟩
  | .error cause => ⟨old, .error cause⟩

end Overworld.Raw.WarpIndex
