import Overworld.Text.Bytes

/-!
# Names of runs

A run is named by sixteen bytes drawn at random, in hexadecimal digits with dashes between the
groups. Six bits are fixed: they say how the name was made.
-/

set_option autoImplicit false

namespace Overworld.Command

/-- The bytes with the fixed bits set: the high half of the seventh is four, and the ninth
begins with a one and a zero. -/
def markRandom (bytes : Bytes) : Bytes :=
  bytes.zipIdx.map fun (b, i) =>
    if i = 6 then b % 16 + 0x40 else if i = 8 then b % 64 + 0x80 else b

def runId (bytes : Bytes) : Bytes :=
  let marked := markRandom bytes
  let group (first count : Nat) : Bytes := utf8 (Bytes.toHex ((marked.drop first).take count))
  Bytes.join [0x2D] [group 0 4, group 4 2, group 6 2, group 8 2, group 10 6]

end Overworld.Command
