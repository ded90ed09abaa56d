import Overworld.Text.Bytes

/-!
# Lower case

Names and words of ASCII letters are compared in lower case. Two letters outside ASCII have
an ASCII letter as their lower case: the capital dotted I and the Kelvin sign.
-/

set_option autoImplicit false

namespace Overworld.Bytes

/-- The text in lower case, as far as that gives ASCII letters. -/
def lowerName : Bytes → Bytes
  | 0xC4 :: 0xB0 :: rest => 0x69 :: lowerName rest
  | 0xE2 :: 0x84 :: 0xAA :: rest => 0x6B :: lowerName rest
  | b :: rest => lowerByte b :: lowerName rest
  | [] => []

end Overworld.Bytes
