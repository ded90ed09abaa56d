import Overworld.Yaml.Characters

/-!
# Scalars in a stream

How the five ways to write a scalar are read. Each reader walks over the
characters once. Between words it keeps the gap it has seen: blanks are kept, and
a line break folds into a space unless more breaks follow it.
-/

set_option autoImplicit false

namespace Overworld.Yaml

inductive Style where
  | plain | single | double | literal | folded
  deriving DecidableEq, Repr

/-- The blanks and breaks seen since the last word. Texts are held last character
first. -/
inductive Gap where
  | none
  | blanks (text : List Char)
  | lines (first : List Char) (more : List Char)
  deriving DecidableEq, Repr

namespace Gap

/-- The gap after one more blank; blanks after a line break are dropped. -/
def blank (c : Char) : Gap → Gap
  | .none => .blanks [c]
  | .blanks t => .blanks (c :: t)
  | .lines f m => .lines f m

/-- The gap after one more line break; blanks before it are dropped. -/
def lineBreak (c : Char) : Gap → Gap
  | .lines f m => .lines f (breakText c :: m)
  | _ => .lines [breakText c] []

def isLines : Gap → Bool
  | .lines _ _ => true
  | _ => false

def join (text : List Char) : Gap → List Char
  | .none => text
  | .blanks t => t ++ text
  | .lines ['\n'] [] => ' ' :: text
  | .lines ['\n'] more => more ++ text
  | .lines first more => more ++ first ++ text

end Gap

/-- A scalar that was read: its text, the gap after it, and where reading stopped. -/
structure ReadScalar where
  text : List Char
  gap : Gap
  mark : Mark
  rest : List Char
  deriving Repr

def isFlowEnd (c : Char) : Bool :=
  c = ',' || c = '?' || c = '[' || c = ']' || c = '{' || c = '}'

def endsPlain (flow : Bool) (c : Char) (rest : List Char) : Bool :=
  (c = ':' && atGap rest) || (flow && isFlowEnd c)

/-- Reads a plain scalar. Outside brackets it goes on over a line break only where
the next word is indented deeply enough. -/
def readPlain (flow : Bool) (indent : Int) :
    List Char → Gap → Mark → List Char → Option ReadScalar
  | text, gap, m, [] => some ⟨text.reverse, gap, m, []⟩
  | text, gap, m, '\r' :: '\n' :: rest =>
    readPlain flow indent text (gap.lineBreak '\n') (m.newline 2) rest
  | text, gap, m, c :: rest =>
    if isBlank c then
      if gap.isLines && (m.column : Int) < indent && c = '\t' then none
      else readPlain flow indent text (gap.blank c) (m.skip 1) rest
    else if isBreak c then
      readPlain flow indent text (gap.lineBreak c) (m.newline 1) rest
    else if gap != .none &&
        ((!flow && (m.column : Int) < indent) ||
          (m.column = 0 && atDocumentMark (c :: rest)) || c = '#') then
      some ⟨text.reverse, gap, m, c :: rest⟩
    else if endsPlain flow c rest then some ⟨text.reverse, gap, m, c :: rest⟩
    else readPlain flow indent (c :: gap.join text) .none (m.skip 1) rest

def readSingle : List Char → Gap → Mark → List Char → Option ReadScalar
  | _, _, _, [] => none
  | text, gap, m, '\r' :: '\n' :: rest => readSingle text (gap.lineBreak '\n') (m.newline 2) rest
  | text, gap, m, '\'' :: '\'' :: rest =>
    readSingle ('\'' :: gap.join text) .none (m.skip 2) rest
  | text, gap, m, c :: rest =>
    if isBlank c then readSingle text (gap.blank c) (m.skip 1) rest
    else if isBreak c then readSingle text (gap.lineBreak c) (m.newline 1) rest
    else if m.column = 0 && atDocumentMark (c :: rest) then none
    else if c = '\'' then some ⟨(gap.join text).reverse, .none, m.skip 1, rest⟩
    else readSingle (c :: gap.join text) .none (m.skip 1) rest

def escapeChar? (c : Char) : Option Char :=
  if c = '0' then some (Char.ofNat 0)
  else if c = 'a' then some (Char.ofNat 7)
  else if c = 'b' then some (Char.ofNat 8)
  else if c = 't' || c = '\t' then some '\t'
  else if c = 'n' then some '\n'
  else if c = 'v' then some (Char.ofNat 0xB)
  else if c = 'f' then some (Char.ofNat 0xC)
  else if c = 'r' then some '\r'
  else if c = 'e' then some (Char.ofNat 0x1B)
  else if c = ' ' then some ' '
  else if c = '"' then some '"'
  else if c = '\'' then some '\''
  else if c = '\\' then some '\\'
  else if c = 'N' then some (Char.ofNat 0x85)
  else if c = '_' then some (Char.ofNat 0xA0)
  else if c = 'L' then some (Char.ofNat 0x2028)
  else if c = 'P' then some (Char.ofNat 0x2029)
  else none

def hexValue? (c : Char) : Option Nat :=
  if c.isDigit then some (c.toNat - 0x30)
  else if 'a' ≤ c && c ≤ 'f' then some (c.toNat - 0x57)
  else if 'A' ≤ c && c ≤ 'F' then some (c.toNat - 0x37)
  else none

def charOfHex? (digits : List Char) : Option Char := do
  let n ← digits.foldlM (fun n c => (hexValue? c).map (16 * n + ·)) 0
  if n.isValidChar then some (Char.ofNat n) else none

/-- Reads a double-quoted scalar after its opening quote. A backslash before a line
break joins the lines without a space. -/
def readDouble : List Char → Gap → Mark → List Char → Option ReadScalar
  | _, _, _, [] => none
  | text, gap, m, '\r' :: '\n' :: rest => readDouble text (gap.lineBreak '\n') (m.newline 2) rest
  | text, gap, m, '\\' :: '\r' :: '\n' :: rest =>
    readDouble (gap.join text) (.lines [] []) (m.newline 3) rest
  | text, gap, m, '\\' :: 'x' :: a :: b :: rest => do
    let c ← charOfHex? [a, b]
    readDouble (c :: gap.join text) .none (m.skip 4) rest
  | text, gap, m, '\\' :: 'u' :: a :: b :: c :: d :: rest => do
    let c ← charOfHex? [a, b, c, d]
    readDouble (c :: gap.join text) .none (m.skip 6) rest
  | text, gap, m, '\\' :: 'U' :: a :: b :: c :: d :: e :: f :: g :: h :: rest => do
    let c ← charOfHex? [a, b, c, d, e, f, g, h]
    readDouble (c :: gap.join text) .none (m.skip 10) rest
  | text, gap, m, '\\' :: e :: rest =>
    if isBreak e then readDouble (gap.join text) (.lines [] []) (m.newline 2) rest
    else match escapeChar? e with
      | some c => readDouble (c :: gap.join text) .none (m.skip 2) rest
      | none => none
  | text, gap, m, c :: rest =>
    if isBlank c then readDouble text (gap.blank c) (m.skip 1) rest
    else if isBreak c then readDouble text (gap.lineBreak c) (m.newline 1) rest
    else if m.column = 0 && atDocumentMark (c :: rest) then none
    else if c = '"' then some ⟨(gap.join text).reverse, .none, m.skip 1, rest⟩
    else if c = '\\' then none
    else readDouble (c :: gap.join text) .none (m.skip 1) rest

inductive Chomping where
  | strip | clip | keep
  deriving DecidableEq, Repr

/-- The indicators after `|` or `>`: chomping and explicit indentation (zero for
none), in either order, with the rest. A zero digit is refused. -/
def readHeader (cs : List Char) : Option (Chomping × Nat × List Char) :=
  let chomp? (c : Char) : Option Chomping :=
    if c = '+' then some .keep else if c = '-' then some .strip else none
  let digit (c : Char) : Nat := c.toNat - 0x30
  match cs with
  | [] => some (.clip, 0, [])
  | c :: rest =>
    match chomp? c with
    | some ch =>
      match rest with
      | d :: rest' => if d.isDigit then if d = '0' then none else some (ch, digit d, rest')
          else some (ch, 0, rest)
      | [] => some (ch, 0, [])
    | none =>
      if c.isDigit then
        if c = '0' then none
        else match rest with
          | d :: rest' => match chomp? d with
            | some ch => some (ch, digit c, rest')
            | none => some (.clip, digit c, rest)
          | [] => some (.clip, digit c, [])
      else some (.clip, 0, cs)

/-- Passes blanks and a comment up to the end of the line; anything else is refused.
The end of the line stays. -/
def skipLineTail : Bool → Mark → List Char → Option (Mark × List Char)
  | _, m, [] => some (m, [])
  | comment, m, c :: rest =>
    if isBreak c then some (m, c :: rest)
    else if comment || c = '#' then skipLineTail true (m.skip 1) rest
    else if isBlank c then skipLineTail false (m.skip 1) rest
    else none

def skipBreak (m : Mark) : List Char → Mark × List Char
  | '\r' :: '\n' :: rest => (m.newline 2, rest)
  | c :: rest => if isBreak c then (m.newline 1, rest) else (m, c :: rest)
  | [] => (m, [])

/-- Passes empty lines at the head of a block scalar, to find its indentation. Gives
the widest indentation seen and the breaks, last first. A tab among the spaces is
refused. With a known indentation spaces beyond it are content. -/
def blockLead (indent : Nat) : Nat → List Char → Mark → List Char →
    Option (Nat × List Char × Mark × List Char)
  | widest, breaks, m, [] => some (max widest m.column, breaks, m, [])
  | widest, breaks, m, '\r' :: '\n' :: rest =>
    blockLead indent (max widest m.column) ('\n' :: breaks) (m.newline 2) rest
  | widest, breaks, m, c :: rest =>
    let inside := indent = 0 || m.column < indent
    if inside && c = ' ' then blockLead indent widest breaks (m.skip 1) rest
    else if inside && c = '\t' then none
    else if isBreak c then
      blockLead indent (max widest m.column) (breakText c :: breaks) (m.newline 1) rest
    else some (max widest m.column, breaks, m, c :: rest)

/-- The lines of a block scalar read so far: the text, the break after the last
line, the empty lines after that, all last character first, and whether the last
line began with a blank. -/
structure BlockLines where
  text : List Char
  ending : List Char
  empties : List Char
  wasBlank : Bool
  deriving Repr

/-- The text when another line begins with a character. Folding turns a single break
between two lines that begin with no blank into a space. -/
def BlockLines.beginLine (folded : Bool) (b : BlockLines) (c : Char) : BlockLines :=
  let joined :=
    if folded && !b.wasBlank && !isBlank c && b.ending = ['\n'] then
      if b.empties.isEmpty then ' ' :: b.text else b.text
    else b.ending ++ b.text
  ⟨b.empties ++ joined, [], [], isBlank c⟩

/-- Reads the lines of a block scalar of a known indentation. The flag says whether
reading stands inside a line. -/
def blockBody (folded : Bool) (indent : Nat) :
    Bool → BlockLines → Mark → List Char → Option (BlockLines × Mark × List Char)
  | _, b, m, [] => some (b, m, [])
  | inLine, b, m, '\r' :: '\n' :: rest =>
    if inLine then
      blockBody folded indent false { b with ending := ['\n'] } (m.newline 2) rest
    else blockBody folded indent false { b with empties := '\n' :: b.empties } (m.newline 2) rest
  | true, b, m, c :: rest =>
    if isBreak c then
      blockBody folded indent false { b with ending := [breakText c] } (m.newline 1) rest
    else blockBody folded indent true { b with text := c :: b.text } (m.skip 1) rest
  | false, b, m, c :: rest =>
    if m.column < indent && c = ' ' then blockBody folded indent false b (m.skip 1) rest
    else if m.column < indent && c = '\t' then none
    else if isBreak c then
      blockBody folded indent false { b with empties := breakText c :: b.empties }
        (m.newline 1) rest
    else if m.column = indent then
      let b' := b.beginLine folded c
      blockBody folded indent true { b' with text := c :: b'.text } (m.skip 1) rest
    else some (b, m, c :: rest)

def BlockLines.finish (chomping : Chomping) (b : BlockLines) : List Char :=
  match chomping with
  | .strip => b.text.reverse
  | .clip => (b.ending ++ b.text).reverse
  | .keep => (b.empties ++ b.ending ++ b.text).reverse

/-- Reads a block scalar after its `|` or `>`, inside a block of an indentation
(-1 outside every block). -/
def readBlock (folded : Bool) (parent : Int) (m : Mark) (cs : List Char) : Option ReadScalar := do
  let (chomping, given, afterHeader) ← readHeader cs
  let (m, rest) ← skipLineTail false (m.skip (cs.length - afterHeader.length)) afterHeader
  let (m, rest) := skipBreak m rest
  let known : Nat := if given = 0 then 0 else (max parent 0).toNat + given
  let (widest, breaks, m, rest) ← blockLead known 0 [] m rest
  let indent : Nat := if known = 0 then max (max widest (parent + 1).toNat) 1 else known
  let (b, m, rest) ← blockBody folded indent false ⟨[], [], breaks, false⟩ m rest
  return ⟨b.finish chomping, .lines [] [], m, rest⟩

end Overworld.Yaml
