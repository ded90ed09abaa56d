import Overworld.Yaml.Value

/-!
# Written documents

What a document is made of when it is written, and its text. Blocks are indented by
four columns. A text is written plain where it would be read back as a text, and
otherwise in quotes or, over several lines, as a literal block.
-/

set_option autoImplicit false

namespace Overworld.Yaml

inductive Tree where
  | text (s : Bytes)
  | int (n : Int)
  | flag (b : Bool)
  | row (ns : List Int)
  | items (ts : List Tree)
  | fields (entries : List (Bytes × Tree))
  deriving Repr, Inhabited

namespace Written

def isPrintable (c : Char) : Bool :=
  let n := c.toNat
  n = 0x0A || (0x20 ≤ n && n ≤ 0x7E) || (0xA0 ≤ n && n ≤ 0xD7FF) ||
    (0xE000 ≤ n && n ≤ 0xFFFD && n != 0xFEFF)

structure Features where
  indicators : Bool
  breaks : Bool
  special : Bool
  tabs : Bool
  spaceAtStart : Bool
  spaceAtEnd : Bool
  breakAtStart : Bool
  breakAtEnd : Bool
  breakSpace : Bool
  spaceBreak : Bool
  deriving DecidableEq, Repr

def indicatorFirst : List Char → Bool
  | [] => false
  | c :: rest =>
    let blankNext := rest.head?.all isBlank
    "#,[]\x7b\x7d&*!|>'\"%@`".toList.contains c || ((c = '?' || c = ':' || c = '-') && blankNext)

/-- Whether a text has a colon before a blank or the end, or a hash after a gap. The
flag says whether a gap stands before the text. -/
def indicatorLater : Bool → List Char → Bool
  | _, [] => false
  | gap, c :: rest =>
    (c = ':' && rest.head?.all isBlank) || (c = '#' && gap) ||
      indicatorLater (isBlank c || isBreak c || c.toNat = 0) rest

/-- Whether some character is followed directly by another, of two classes. -/
def followed (p q : Char → Bool) : List Char → Bool
  | a :: b :: rest => (p a && q b) || followed p q (b :: rest)
  | _ => false

def beginsLikeMark : List Char → Bool
  | '-' :: '-' :: '-' :: _ => true
  | '.' :: '.' :: '.' :: _ => true
  | _ => false

def features (cs : List Char) : Features where
  indicators := beginsLikeMark cs || indicatorFirst cs ||
    match cs with
    | [] => false
    | c :: rest => indicatorLater (isBlank c || isBreak c || c.toNat = 0) rest
  breaks := cs.any isBreak
  special := cs.any fun c => !isPrintable c && c != '\t'
  tabs := cs.contains '\t'
  spaceAtStart := cs.head? = some ' '
  spaceAtEnd := cs.getLast? = some ' '
  breakAtStart := cs.head?.any isBreak
  breakAtEnd := cs.getLast?.any isBreak
  breakSpace := followed isBreak (· = ' ') cs
  spaceBreak := followed (· = ' ') isBreak cs

namespace Features

def plainAllowed (f : Features) : Bool :=
  !(f.spaceAtStart || f.breakAtStart || f.spaceAtEnd || f.breakAtEnd || f.breakSpace ||
    f.spaceBreak || f.tabs || f.special || f.breaks || f.indicators)

def singleAllowed (f : Features) : Bool := !(f.breakSpace || f.spaceBreak || f.tabs || f.special)

def literalAllowed (f : Features) : Bool := !(f.spaceAtEnd || f.spaceBreak || f.special)

end Features

def isOldBool (s : Bytes) : Bool :=
  ["y", "n", "yes", "no", "on", "off"].any fun w => (Value.spellings w).contains s

/-- Passes the parts `:` and one or two digits, below sixty, of a number in base 60;
gives what follows them. -/
def dropSixtieths : Bytes → Bytes
  | 0x3A :: a :: b :: rest =>
    if Bytes.isDigit a then
      if Bytes.isDigit b then
        if a ≤ 0x35 then dropSixtieths rest else 0x3A :: a :: b :: rest
      else dropSixtieths (b :: rest)
    else 0x3A :: a :: b :: rest
  | [0x3A, a] => if Bytes.isDigit a then [] else [0x3A, a]
  | s => s

def isSixtieths (s : Bytes) : Bool :=
  match (Number.splitSign s).2 with
  | [] => false
  | d :: rest =>
    let after := rest.dropWhile fun b => Bytes.isDigit b || b = 0x5F
    let tail := dropSixtieths after
    Bytes.isDigit d && tail.length < after.length &&
      match tail with
      | [] => true
      | p :: fraction => p = 0x2E && fraction.all fun b => Bytes.isDigit b || b = 0x5F

/-- Whether a text written plain is read back as that text, here and by older readers. -/
def readsAsText (s : Bytes) : Bool :=
  match Value.guess true s with
  | .text _ => !(isSixtieths s || isOldBool s)
  | _ => false

/-- A text as it is written: encoded when it is no valid UTF-8. -/
structure Shape where
  encoded : Bool
  chars : List Char
  deriving DecidableEq, Repr

def wrapLines (width : Nat) : Nat → Bytes → Bytes
  | _, [] => [0x0A]
  | 0, b :: rest => 0x0A :: b :: wrapLines width (width - 1) rest
  | n + 1, b :: rest => b :: wrapLines width n rest

/-- The shape of a text. Long encodings are split into lines of 70 letters. -/
def shape (s : Bytes) : Shape :=
  if Utf8.isValid s then ⟨false, Utf8.chars s⟩
  else
    let letters := Base64.encode s
    ⟨true, Utf8.chars (if letters.length < 70 then letters else wrapLines 70 70 letters)⟩

def tagText (s : Shape) : Bytes := if s.encoded then utf8 "!!binary " else []

def isSimpleKey (s : Shape) : Bool :=
  let width := (Utf8.encode s.chars).length + (if s.encoded then 8 else 0)
  !s.chars.any isBreak && width ≤ 128

/-- The style of a text. A simple key is never a block. -/
def style (simpleKey : Bool) (s : Shape) : Style :=
  let f := features s.chars
  let wanted : Style :=
    if s.chars.contains '\n' then .literal
    else if s.encoded || readsAsText (Utf8.encode s.chars) then .plain
    else .double
  match wanted with
  | .plain =>
    if f.plainAllowed then .plain else if f.singleAllowed then .single else .double
  | .literal => if f.literalAllowed && !simpleKey then .literal else .double
  | other => other

def pad (n : Nat) : Bytes := List.replicate n 0x20

def upperHex (n : Nat) : UInt8 := if n < 10 then UInt8.ofNat (0x30 + n) else UInt8.ofNat (0x37 + n)

def hexDigits : Nat → Nat → Bytes
  | 0, _ => []
  | k + 1, n => hexDigits k (n / 16) ++ [upperHex (n % 16)]

def escape (c : Char) : Bytes :=
  let n := c.toNat
  if n = 0 then [0x30]
  else if n = 7 then [0x61]
  else if n = 8 then [0x62]
  else if n = 9 then [0x74]
  else if n = 0xA then [0x6E]
  else if n = 0xB then [0x76]
  else if n = 0xC then [0x66]
  else if n = 0xD then [0x72]
  else if n = 0x1B then [0x65]
  else if n = 0x22 then [0x22]
  else if n = 0x5C then [0x5C]
  else if n = 0x85 then [0x4E]
  else if n = 0x2028 then [0x4C]
  else if n = 0x2029 then [0x50]
  else if n ≤ 0xFF then 0x78 :: hexDigits 2 n
  else if n ≤ 0xFFFF then 0x75 :: hexDigits 4 n
  else 0x55 :: hexDigits 8 n

def doubleChar (c : Char) : Bytes :=
  if !isPrintable c || isBreak c || c = '"' || c = '\\' then 0x5C :: escape c
  else String.utf8EncodeChar c

/-- The characters between single quotes: a quote is written twice, and a line goes on
at the indentation. The flag says whether a line has just ended. -/
def singleBody (indent : Nat) : Bool → List Char → Bytes
  | _, [] => []
  | fresh, c :: rest =>
    if isBreak c then String.utf8EncodeChar c ++ singleBody indent true rest
    else
      (if fresh && c != ' ' then pad indent else []) ++
        (if c = '\'' then [0x27, 0x27] else String.utf8EncodeChar c) ++
        singleBody indent (fresh && c = ' ') rest

/-- The lines of a literal block. `fresh` says that a line has to be begun, and `opened`
that the line before it is still to be ended. -/
def literalBody (indent : Nat) : Bool → Bool → List Char → Bytes
  | _, _, [] => []
  | fresh, opened, c :: rest =>
    if isBreak c then String.utf8EncodeChar c ++ literalBody indent true false rest
    else
      (if fresh then (if opened then [0x0A] else []) ++ pad indent else []) ++
        String.utf8EncodeChar c ++ literalBody indent false true rest

/-- What stands after the bar of a literal block: the indentation where the text begins
with a space or a break, and what to do with the breaks at its end. -/
def literalHeader (cs : List Char) : Bytes :=
  let indentation : Bytes := if cs.head?.any (fun c => c = ' ' || isBreak c) then [0x34] else []
  let ending : Bytes := match cs.reverse with
    | [] => [0x2D]
    | c :: before =>
      if !isBreak c then [0x2D]
      else if before.head?.all isBreak then [0x2B]
      else []
  0x7C :: (indentation ++ ending)

def scalar (indent : Nat) (simpleKey : Bool) (s : Bytes) : Bytes :=
  let sh := shape s
  tagText sh ++
    match style simpleKey sh with
    | .plain => Utf8.encode sh.chars
    | .single => 0x27 :: singleBody indent false sh.chars ++ [0x27]
    | .double => 0x22 :: sh.chars.flatMap doubleChar ++ [0x22]
    | _ => literalHeader sh.chars ++ literalBody indent true true sh.chars

/-- The end of a line after a text: a literal block that ends in a break has ended its
line itself. -/
def lineEnd (simpleKey : Bool) (s : Bytes) : Bytes :=
  let sh := shape s
  if style simpleKey sh = .literal && sh.chars.getLast?.any isBreak then [] else [0x0A]

def deeper (indent : Nat) : Nat := 4 * ((indent + 4) / 4)

def row (ns : List Int) : Bytes :=
  0x5B :: Bytes.join [0x2C, 0x20] (ns.map Bytes.ofInt) ++ [0x5D]

def flagText (b : Bool) : Bytes := utf8 (if b then "true" else "false")

/-- What leads to an indentation: a new line, or spaces from a column of this one. -/
def gapTo (indent : Nat) : Option Nat → Bytes
  | some column => pad (indent - column)
  | none => 0x0A :: pad indent

mutual

/-- What stands after the colon of a key at an indentation, with the end of the line.
`column` is the place after the colon where a block may go on, if it may. -/
def valueText (indent : Nat) (column : Option Nat) : Tree → Bytes
  | .text s => 0x20 :: scalar (deeper indent) false s ++ lineEnd false s
  | .int n => 0x20 :: Bytes.ofInt n ++ [0x0A]
  | .flag b => 0x20 :: flagText b ++ [0x0A]
  | .row ns => 0x20 :: row ns ++ [0x0A]
  | .items ts =>
    if ts.isEmpty then utf8 " []\n"
    else gapTo (deeper indent) column ++ itemsText (deeper indent) true ts
  | .fields es =>
    if es.isEmpty then utf8 " \x7b\x7d\n"
    else gapTo (deeper indent) column ++ fieldsText (deeper indent) true es

/-- The items of a block sequence; the first one may stand at its place already. -/
def itemsText (indent : Nat) : Bool → List Tree → Bytes
  | _, [] => []
  | placed, t :: ts =>
    (if placed then [] else pad indent) ++ itemText indent t ++ itemsText indent false ts

def itemText (indent : Nat) : Tree → Bytes
  | .text s => 0x2D :: 0x20 :: scalar (indent + 2) false s ++ lineEnd false s
  | .int n => 0x2D :: 0x20 :: Bytes.ofInt n ++ [0x0A]
  | .flag b => 0x2D :: 0x20 :: flagText b ++ [0x0A]
  | .row ns => 0x2D :: 0x20 :: row ns ++ [0x0A]
  | .items ts =>
    if ts.isEmpty then utf8 "- []\n" else 0x2D :: 0x20 :: itemsText (indent + 2) true ts
  | .fields es =>
    if es.isEmpty then utf8 "- \x7b\x7d\n" else 0x2D :: 0x20 :: fieldsText (indent + 2) true es

def fieldsText (indent : Nat) : Bool → List (Bytes × Tree) → Bytes
  | _, [] => []
  | placed, e :: es =>
    (if placed then [] else pad indent) ++ fieldText indent e ++ fieldsText indent false es

/-- One entry of a mapping. A key that is long or has several lines stands after a
question mark. -/
def fieldText (indent : Nat) : Bytes × Tree → Bytes
  | (k, t) =>
    if isSimpleKey (shape k) then
      scalar (deeper indent) true k ++ 0x3A :: valueText indent none t
    else
      0x3F :: 0x20 :: scalar (deeper indent) false k ++ lineEnd false k ++
        pad indent ++ 0x3A :: valueText indent (some (indent + 1)) t

end

end Written

def renderFields (entries : List (Bytes × Tree)) : Bytes :=
  if entries.isEmpty then utf8 "\x7b\x7d\n" else Written.fieldsText 0 true entries

end Overworld.Yaml
