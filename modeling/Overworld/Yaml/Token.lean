import Overworld.Yaml.Scalar

/-!
# Tokens of a stream

Splits the characters of a stream into tokens. Blocks are opened and closed by
indentation. A mapping key is recognised only at the colon after it, so the place
where it began is remembered and the key token is put in there.

A stream is read no further than its first document needs, so an error behind that
place must not count: `Scanner.usable` says how far the tokens can be used.
-/

set_option autoImplicit false

namespace Overworld.Yaml

inductive Token where
  | streamEnd
  | version (major minor : Nat)
  | tagAbbreviation (handle start : Bytes)
  | documentStart
  | documentEnd
  | blockSequenceStart
  | blockMappingStart
  | blockEnd
  | flowSequenceStart
  | flowSequenceEnd
  | flowMappingStart
  | flowMappingEnd
  | blockEntry
  | flowEntry
  | key
  | value
  | alias (name : List Char)
  | anchor (name : List Char)
  | tag (handle suffix : Bytes)
  | scalar (text : List Char) (style : Style)
  deriving DecidableEq, Repr

/-- A place where a mapping key may have begun: a required one stands where only a
key can. -/
structure PendingKey where
  required : Bool
  position : Nat
  mark : Mark
  deriving Repr

/-- Whether a key that began earlier can no longer end here: a key ends on its own
line and within 1024 characters. -/
def PendingKey.isStale (k : PendingKey) (m : Mark) : Bool :=
  k.mark.line < m.line || k.mark.index + 1024 < m.index

/-- Where splitting stands. The tokens are held last first. There is one entry of
`keys` for each open bracket and one for the block context. -/
structure Scanner where
  rest : List Char
  mark : Mark
  tokens : List Token
  count : Nat
  indent : Int
  outer : List Int
  keyAllowed : Bool
  keys : List (Option PendingKey)
  deriving Repr

namespace Scanner

def start (cs : List Char) : Scanner := ⟨cs, Mark.start, [], 0, -1, [], true, [none]⟩

def inFlow (s : Scanner) : Bool := 1 < s.keys.length

def emit (s : Scanner) (t : Token) : Scanner :=
  { s with tokens := t :: s.tokens, count := s.count + 1 }

def insertAt (s : Scanner) (position : Nat) (t : Token) : Scanner :=
  let behind := s.count - position
  { s with
    tokens := s.tokens.take behind ++ t :: s.tokens.drop behind
    count := s.count + 1 }

def skip (s : Scanner) (n : Nat) : Scanner :=
  { s with rest := s.rest.drop n, mark := s.mark.skip n }

def key? (s : Scanner) : Option PendingKey := s.keys.head?.join

def setKey (s : Scanner) (k : Option PendingKey) : Scanner := { s with keys := k :: s.keys.tail }

/-- Gives up the pending key, which must not be a required one. -/
def dropKey (s : Scanner) : Option Scanner :=
  match s.key? with
  | some k => if k.required then none else some (s.setKey none)
  | none => some s

def rememberKey (s : Scanner) : Option Scanner :=
  if s.keyAllowed then do
    let s' ← s.dropKey
    return s'.setKey (some ⟨!s.inFlow && s.indent = (s.mark.column : Int), s.count, s.mark⟩)
  else some s

def closeBlocks (column : Int) :
    Int → List Int → List Token → Nat → Int × List Int × List Token × Nat
  | indent, [], tokens, count => (indent, [], tokens, count)
  | indent, i :: outer, tokens, count =>
    if column < indent then closeBlocks column i outer (.blockEnd :: tokens) (count + 1)
    else (indent, i :: outer, tokens, count)

def unroll (s : Scanner) (column : Int) : Scanner :=
  if s.inFlow then s
  else
    let (indent, outer, tokens, count) := closeBlocks column s.indent s.outer s.tokens s.count
    { s with indent, outer, tokens, count }

def maxDepth : Nat := 10000

def roll (s : Scanner) (column : Nat) (position : Nat) (t : Token) : Option Scanner :=
  if s.inFlow then some s
  else if s.indent < (column : Int) then
    if maxDepth ≤ s.outer.length then none
    else some { s.insertAt position t with indent := column, outer := s.indent :: s.outer }
  else some s

/-- Whether only blanks and line breaks, fewer than a number of them, stand before a
comment. -/
def commentAhead : Nat → List Char → Bool
  | 0, _ => false
  | _, [] => false
  | n + 1, c :: rest =>
    if c = '#' then true
    else if isBlank c || c = '\n' || c = '\r' then commentAhead n rest
    else false

/-- Passes spaces, comments and line breaks before a token. A new line makes a key
possible outside brackets. A tab is passed inside brackets, where no key can begin,
and before another comment line.

The arguments after the flag are: whether a comment is being passed, whether only
blanks stand before the next comment, and whether a key can begin here. -/
def skipGap (flow : Bool) : Bool → Bool → Bool → Mark → List Char → Bool × Mark × List Char
  | _, _, allowed, m, [] => (allowed, m, [])
  | comment, ahead, allowed, m, '\r' :: '\n' :: rest =>
    let ahead := if comment then commentAhead 512 ('\r' :: '\n' :: rest) else ahead
    skipGap flow false ahead (allowed || !flow) (m.newline 2) rest
  | comment, ahead, allowed, m, c :: rest =>
    if isBreak c then
      let ahead := if comment then commentAhead 512 (c :: rest) else ahead
      skipGap flow false ahead (allowed || !flow) (m.newline 1) rest
    else if comment then skipGap flow true false allowed (m.skip 1) rest
    else if c = '#' then skipGap flow true false allowed (m.skip 1) rest
    else if c = ' ' || (c = '\t' && (flow || !allowed || ahead)) then
      skipGap flow false ahead allowed (m.skip 1) rest
    else if m.column = 0 && c = byteOrderMark then
      skipGap flow false ahead allowed (m.skip 1) rest
    else (allowed, m, c :: rest)

def skipComment (s : Scanner) : Scanner :=
  let blanks := s.rest.takeWhile isBlank
  match s.rest.drop blanks.length with
  | '#' :: _ =>
    if blanks.length < 512 then s.skip (s.rest.takeWhile (!isBreak ·)).length else s
  | _ => s

def isTagChar (c : Char) : Bool :=
  isWord c || ";/?:@&=+$,.!~*'()[]%".toList.contains c

/-- The bytes of one character given by percent escapes: a leading byte that says how
many more there are. -/
def escapedChar : List Char → Option (Bytes × Nat)
  | '%' :: a :: b :: rest => do
    let lead := 16 * (← hexValue? a) + (← hexValue? b)
    let width ←
      if lead < 0x80 then some 1
      else if 0xC0 ≤ lead && lead < 0xE0 then some 2
      else if 0xE0 ≤ lead && lead < 0xF0 then some 3
      else if 0xF0 ≤ lead && lead < 0xF8 then some 4
      else none
    let tail ← (List.range (width - 1)).mapM fun i =>
      match rest.drop (3 * i) with
      | '%' :: c :: d :: _ => do
        let n := 16 * (← hexValue? c) + (← hexValue? d)
        if 0x80 ≤ n && n < 0xC0 then some (UInt8.ofNat n) else none
      | _ => none
    return (UInt8.ofNat lead :: tail, 3 * width)
  | _ => none

/-- Reads the characters of a tag. The number says how many are already used. -/
def readTagChars : Nat → Bytes → List Char → Option (Bytes × List Char)
  | _, acc, [] => some (acc.reverse, [])
  | n + 1, acc, _ :: rest => readTagChars n acc rest
  | 0, acc, c :: rest =>
    if c = '%' then do
      let (bytes, used) ← escapedChar (c :: rest)
      readTagChars (used - 1) (bytes.reverse ++ acc) rest
    else if isTagChar c then readTagChars 0 (UInt8.ofNat c.toNat :: acc) rest
    else some (acc.reverse, c :: rest)

def ascii (cs : List Char) : Bytes := cs.map fun c => UInt8.ofNat c.toNat

def readHandle : List Char → Option (List Char × List Char)
  | '!' :: rest =>
    let word := rest.takeWhile isWord
    match rest.drop word.length with
    | '!' :: rest' => some ('!' :: word ++ ['!'], rest')
    | rest' => some ('!' :: word, rest')
  | _ => none

def readTag : List Char → Option (Bytes × Bytes × List Char)
  | '!' :: '<' :: rest => do
    let (suffix, rest) ← readTagChars 0 [] rest
    if suffix.isEmpty then none
    else match rest with
      | '>' :: rest => if atGap rest then some ([], suffix, rest) else none
      | _ => none
  | cs => do
    let (handle, rest) ← readHandle cs
    let (suffix, rest) ← readTagChars 0 [] rest
    let (handle, suffix) ←
      if 1 < handle.length && handle.getLast? = some '!' then
        if suffix.isEmpty then none else some (ascii handle, suffix)
      else
        let whole := ascii handle.tail ++ suffix
        some (if whole.isEmpty then ([], ascii handle) else ([0x21], whole))
    if atGap rest then some (handle, suffix, rest) else none

def readVersionNumber (cs : List Char) : Option (Nat × List Char) :=
  let digits := cs.takeWhile Char.isDigit
  if digits.isEmpty || 2 < digits.length then none
  else some (digits.foldl (fun n c => 10 * n + (c.toNat - 0x30)) 0, cs.drop digits.length)

def readDirective (cs : List Char) : Option (Token × List Char) := do
  let name := cs.takeWhile isWord
  let rest := cs.drop name.length
  let body := rest.dropWhile isBlank
  if !atGap rest then none
  else if name = ['Y', 'A', 'M', 'L'] then
    let (major, body) ← readVersionNumber body
    match body with
    | '.' :: body =>
      let (minor, body) ← readVersionNumber body
      return (.version major minor, body)
    | _ => none
  else if name = ['T', 'A', 'G'] then
    let (handle, body) ← readHandle body
    if handle.getLast? != some '!' then none
    else match body with
      | c :: _ =>
        if isBlank c then
          let (start, body) ← readTagChars 0 [] (body.dropWhile isBlank)
          if start.isEmpty || !atGap body then none
          else return (.tagAbbreviation (ascii handle) start, body)
        else none
      | [] => none
  else none

def moveTo (s : Scanner) (rest : List Char) : Scanner :=
  { s with rest, mark := s.mark.skip (s.rest.length - rest.length) }

def leaveBlocks (s : Scanner) : Option Scanner := do
  let s ← (s.unroll (-1)).dropKey
  return { s with keyAllowed := false }

def openFlow (s : Scanner) (t : Token) : Option Scanner := do
  let s ← s.rememberKey
  if maxDepth < s.keys.length then none
  return ({ s with keys := none :: s.keys, keyAllowed := true }.emit t).skip 1

def closeFlow (s : Scanner) (t : Token) : Option Scanner := do
  let s ← s.dropKey
  let keys := if s.inFlow then s.keys.tail else s.keys
  return ({ s with keys, keyAllowed := false }.emit t).skip 1

/-- An entry or an explicit key, which opens a block where none is open yet. -/
def openItem (s : Scanner) (block t : Token) (allowedAfter : Bool) : Option Scanner := do
  if !s.inFlow && !s.keyAllowed then none
  let s ← (← s.roll s.mark.column s.count block).dropKey
  return ({ s with keyAllowed := allowedAfter }.emit t).skip 1

/-- A colon: it makes a key of what is pending, or else belongs to an explicit key. -/
def colon (s : Scanner) : Option Scanner :=
  let after (s : Scanner) (allowed : Bool) : Scanner :=
    (({ s with keyAllowed := allowed }.emit .value).skip 1)
  let explicit (s : Scanner) : Option Scanner :=
    if s.inFlow then some (after s false)
    else if s.keyAllowed then
      (s.roll s.mark.column s.count .blockMappingStart).map fun s => after s true
    else none
  match s.key? with
  | some k =>
    if k.isStale s.mark then if k.required then none else explicit (s.setKey none)
    else
      ((s.insertAt k.position .key).roll k.mark.column k.position .blockMappingStart).map
        fun s => after (s.setKey none) false
  | none => explicit s

def name (s : Scanner) (token : List Char → Token) : Option Scanner := do
  let s ← s.rememberKey
  let word := s.rest.tail.takeWhile isWord
  let rest := s.rest.drop (word.length + 1)
  let ends := atGap rest || match rest with
    | c :: _ => "?:,]\x7d%@`".toList.contains c
    | [] => true
  if word.isEmpty || !ends then none
  else return ({ s with keyAllowed := false }.emit (token word)).moveTo rest

def afterScalar (s : Scanner) (style : Style) (r : ReadScalar) (allowed : Bool) : Scanner :=
  { s with keyAllowed := allowed, rest := r.rest, mark := r.mark }.emit (.scalar r.text style)

def beginsPlain (flow : Bool) (c : Char) (rest : List Char) : Bool :=
  let indicator := "-?:,[]\x7b\x7d#&*!|>'\"%@`".toList.contains c
  (!indicator && !isBlank c) || (c = '-' && !(rest.head?.any isBlank)) ||
    (!flow && (c = '?' || c = ':') && !atGap rest)

inductive Progress where
  | more (s : Scanner)
  | ended (s : Scanner)

/-- Reads the token that begins with a character, where no directive and no document
mark stands. A comment may follow it on the line. -/
def token (s : Scanner) (c : Char) (rest : List Char) : Option Scanner :=
  let flow := s.inFlow
  if c = '[' then do return (← s.openFlow .flowSequenceStart).skipComment
  else if c = '{' then do return (← s.openFlow .flowMappingStart).skipComment
  else if c = ']' then do return (← s.closeFlow .flowSequenceEnd).skipComment
  else if c = '}' then do return (← s.closeFlow .flowMappingEnd).skipComment
  else if c = ',' then do
    let s ← s.dropKey
    return (({ s with keyAllowed := true }.emit .flowEntry).skip 1).skipComment
  else if c = '-' && atGap rest then s.openItem .blockSequenceStart .blockEntry true
  else if c = '?' && (flow || atGap rest) then do
    return (← s.openItem .blockMappingStart .key (!flow)).skipComment
  else if c = ':' && (flow || atGap rest) then do return (← s.colon).skipComment
  else if c = '*' then do return (← s.name .alias).skipComment
  else if c = '&' then do return (← s.name .anchor).skipComment
  else if c = '!' then do
    let s ← s.rememberKey
    let (handle, suffix, rest) ← readTag s.rest
    return (({ s with keyAllowed := false }.emit (.tag handle suffix)).moveTo rest).skipComment
  else if (c = '|' || c = '>') && !flow then do
    let s ← s.dropKey
    let r ← readBlock (c = '>') s.indent (s.mark.skip 1) rest
    return s.afterScalar (if c = '>' then .folded else .literal) r true
  else if c = '\'' then do
    let s ← s.rememberKey
    return (s.afterScalar .single (← readSingle [] .none (s.mark.skip 1) rest) false).skipComment
  else if c = '"' then do
    let s ← s.rememberKey
    return (s.afterScalar .double (← readDouble [] .none (s.mark.skip 1) rest) false).skipComment
  else if beginsPlain flow c rest then do
    let s ← s.rememberKey
    let r ← readPlain flow (s.indent + 1) [] .none s.mark s.rest
    let s := s.afterScalar .plain r r.gap.isLines
    return if r.gap.isLines then s else s.skipComment
  else none

def dispatch (s : Scanner) : Option Progress :=
  match s.rest with
  | [] => do
    let s ← s.leaveBlocks
    return .ended (s.emit .streamEnd)
  | c :: tail =>
    if s.mark.column = 0 && c = '%' then do
      let s ← s.leaveBlocks
      let (t, rest) ← readDirective tail
      let (mark, rest) ← skipLineTail false ((s.moveTo rest).mark) rest
      let (mark, rest) := skipBreak mark rest
      return .more { s.emit t with mark, rest }
    else if s.mark.column = 0 && atDocumentMark s.rest then do
      let s ← s.leaveBlocks
      return .more ((s.emit (if c = '-' then .documentStart else .documentEnd)).skip 3)
    else do return .more (← s.token c tail)

/-- Reads the next token: passes over what lies before it and closes the blocks that are
indented deeper. -/
def step (s : Scanner) : Option Progress :=
  let (keyAllowed, mark, rest) := skipGap s.inFlow false false s.keyAllowed s.mark s.rest
  ({ s with keyAllowed, mark, rest }.unroll mark.column).dispatch

/-- Reads tokens until the stream ends or an error stops it; the flag says that the
stream ended well. -/
def run : Nat → Scanner → Scanner × Bool
  | 0, s => (s, false)
  | n + 1, s =>
    match s.step with
    | none => (s, false)
    | some (.more s') => run n s'
    | some (.ended s') => (s', true)

/-- How many of the first tokens can be used when an error came after them. The two
tokens before an error are never reached, nor is one at which a key may begin that
is not yet decided. -/
def usable (s : Scanner) : Nat :=
  s.keys.foldl
    (fun n k => match k with
      | some k => if k.required || !k.isStale s.mark then min n k.position else n
      | none => n)
    (s.count - 2)

end Scanner

/-- The tokens of a stream that can be used. Without an error they end with the end
of the stream. -/
def tokens (cs : List Char) : List Token :=
  let (s, ok) := Scanner.run (cs.length + 1) (Scanner.start cs)
  if ok then s.tokens.reverse else s.tokens.reverse.take s.usable

end Overworld.Yaml
