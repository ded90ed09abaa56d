import Overworld.Text.Utf8

/-!
# Locations

A location names a map across the whole world: an index, and the scope it belongs
to. Locations without a scope are written by their index alone.
-/

set_option autoImplicit false

namespace Overworld

structure Location where
  /-- The group the index belongs to; empty for none. -/
  scope : Bytes
  index : Bytes
  deriving DecidableEq, Repr, Inhabited

namespace Location

def maxWidth : Nat := 16

def derivedScope : Bytes := utf8 "unnamed"

/-- The written form, `scope:index` or the bare index. The world graph is keyed by
it. -/
def key (l : Location) : Bytes :=
  if l.scope.isEmpty then l.index else l.scope ++ 0x3A :: l.index

def shown (l : Location) : String := Utf8.shown l.key

end Location

end Overworld
