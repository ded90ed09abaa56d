import Overworld.Text.Utf8

/-!
# Characters of a YAML stream

A stream is UTF-8 unless it begins with a UTF-16 byte order mark. Reading it fails
on ill-formed text and on characters that YAML does not allow.
-/

set_option autoImplicit false

namespace Overworld.Yaml

def isAllowed (c : Char) : Bool :=
  let n := c.toNat
  n = 0x09 || n = 0x0A || n = 0x0D || (0x20 ≤ n && n ≤ 0x7E) || n = 0x85 ||
    (0xA0 ≤ n && n ≤ 0xD7FF) || (0xE000 ≤ n && n ≤ 0xFFFD) || (0x10000 ≤ n && n ≤ 0x10FFFF)

def byteOrderMark : Char := Char.ofNat 0xFEFF

def charsOfUtf8 (s : Bytes) : Option (List Char) :=
  (Utf8.pieces s).mapM fun
    | .char c => some c
    | .stray _ => none

def unitsOf (unit : UInt8 → UInt8 → Nat) : Bytes → Option (List Nat)
  | [] => some []
  | [_] => none
  | a :: b :: rest => (unitsOf unit rest).map (unit a b :: ·)

/-- Joins surrogate pairs; a lone surrogate is ill formed. -/
def charsOfUnits : List Nat → Option (List Char)
  | [] => some []
  | u :: us =>
    if 0xDC00 ≤ u && u ≤ 0xDFFF then none
    else if 0xD800 ≤ u && u ≤ 0xDBFF then
      match us with
      | v :: rest =>
        if 0xDC00 ≤ v && v ≤ 0xDFFF then
          (charsOfUnits rest).map
            (Char.ofNat (0x10000 + (u - 0xD800) * 0x400 + (v - 0xDC00)) :: ·)
        else none
      | [] => none
    else (charsOfUnits us).map (Char.ofNat u :: ·)

/-- The characters of a stream, or nothing when it is ill formed or holds a
character that is not allowed. -/
def characters (s : Bytes) : Option (List Char) := do
  let cs ← match s with
    | 0xFF :: 0xFE :: rest => do charsOfUnits (← unitsOf (fun a b => a.toNat + 256 * b.toNat) rest)
    | 0xFE :: 0xFF :: rest => do charsOfUnits (← unitsOf (fun a b => 256 * a.toNat + b.toNat) rest)
    | 0xEF :: 0xBB :: 0xBF :: rest => charsOfUtf8 rest
    | _ => charsOfUtf8 s
  if cs.all isAllowed then some cs else none

def isBreak (c : Char) : Bool :=
  c = '\n' || c = '\r' || c.toNat = 0x85 || c.toNat = 0x2028 || c.toNat = 0x2029

def isBlank (c : Char) : Bool := c = ' ' || c = '\t'

def atGap : List Char → Bool
  | [] => true
  | c :: _ => isBlank c || isBreak c

def atLineEnd : List Char → Bool
  | [] => true
  | c :: _ => isBreak c

/-- How a line break reads: a line or paragraph separator stands for itself, every
other break for a line feed. -/
def breakText (c : Char) : Char :=
  if c.toNat = 0x2028 || c.toNat = 0x2029 then c else '\n'

def isWord (c : Char) : Bool := c.isAlphanum || c = '_' || c = '-'

/-- Whether `---` or `...` followed by a gap begins the text. -/
def atDocumentMark : List Char → Bool
  | '-' :: '-' :: '-' :: rest => atGap rest
  | '.' :: '.' :: '.' :: rest => atGap rest
  | _ => false

structure Mark where
  index : Nat
  line : Nat
  column : Nat
  deriving DecidableEq, Repr, Inhabited

namespace Mark

def start : Mark := ⟨0, 0, 0⟩

def skip (m : Mark) (n : Nat) : Mark := ⟨m.index + n, m.line, m.column + n⟩

def newline (m : Mark) (n : Nat) : Mark := ⟨m.index + n, m.line + 1, 0⟩

end Mark

end Overworld.Yaml
