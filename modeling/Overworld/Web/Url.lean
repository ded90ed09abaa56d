import Overworld.Text.Bytes

/-!
# Web addresses

Reading an address into its parts, and its text. Escapes are undone where a part is read
and put back where it is written; a path keeps the way it was escaped, if that is valid.
-/

set_option autoImplicit false

namespace Overworld

structure Url where
  scheme : Bytes
  /-- What follows the scheme of an address that is no path. -/
  rootless : Bytes
  user : Option (Bytes × Option Bytes)
  host : Bytes
  path : Bytes
  /-- The path as it was written, where it is not written in the usual way. -/
  rawPath : Bytes
  /-- Whether the host is left out, not empty. -/
  omitsHost : Bool
  emptyQuery : Bool
  query : Bytes
  fragment : Bytes
  rawFragment : Bytes
  deriving DecidableEq, Repr, Inhabited

namespace Url

inductive Part where
  | path | user | host | zone | fragment
  deriving DecidableEq, Repr

def isLetter (b : UInt8) : Bool := (0x41 ≤ b && b ≤ 0x5A) || (0x61 ≤ b && b ≤ 0x7A)

def oneOf (chars : String) (b : UInt8) : Bool := (utf8 chars).contains b

def needsEscape (part : Part) (b : UInt8) : Bool :=
  if isLetter b || Bytes.isDigit b then false
  else if (part = .host || part = .zone) && oneOf "!$&'()*+,;=:[]<>\"" b then false
  else if oneOf "-_.~" b then false
  else if oneOf "$&+,/:;=?@" b then
    match part with
    | .path => b = 0x3F
    | .user => oneOf "@/?:" b
    | .fragment => false
    | _ => true
  else if part = .fragment && oneOf "!()*" b then false
  else true

def percent (b : UInt8) : Bytes :=
  let digit (n : Nat) : UInt8 := if n < 10 then UInt8.ofNat (0x30 + n) else UInt8.ofNat (0x37 + n)
  [0x25, digit (b.toNat / 16), digit (b.toNat % 16)]

def escape (part : Part) (s : Bytes) : Bytes :=
  s.flatMap fun b => if needsEscape part b then percent b else [b]

/-- Whether an escape may stand in a part: a host can hold only escapes of bytes beyond
ASCII, and a zone only of bytes that may stand in a host. -/
def escapeAllowed (part : Part) (n : Nat) : Bool :=
  match part with
  | .host => 0x80 ≤ n || n = 0x25
  | .zone => n = 0x25 || n = 0x20 || !needsEscape .host (UInt8.ofNat n)
  | _ => true

def unescape (part : Part) : Bytes → Option Bytes
  | [] => some []
  | 0x25 :: a :: b :: rest => do
    let n := 16 * (← Bytes.hexValue? a) + (← Bytes.hexValue? b)
    if escapeAllowed part n then return UInt8.ofNat n :: (← unescape part rest) else none
  | b :: rest =>
    if b = 0x25 then none
    else if (part = .host || part = .zone) && b < 0x80 && needsEscape part b then none
    else (unescape part rest).map (b :: ·)

def cut (sep : UInt8) (s : Bytes) : Bytes × Bytes :=
  (Bytes.splitAt sep s).getD (s, [])

def cutLast (sep : UInt8) (s : Bytes) : Option (Bytes × Bytes) :=
  (Bytes.splitAt sep s.reverse).map fun (after, before) => (before.reverse, after.reverse)

/-- The scheme before the first colon and what follows it. A text that begins with a colon
has none and is refused. -/
def splitScheme (s : Bytes) : Option (Bytes × Bytes) :=
  let name := s.takeWhile fun b => isLetter b || Bytes.isDigit b || oneOf "+-." b
  match s.drop name.length, name with
  | 0x3A :: _, [] => none
  | 0x3A :: rest, b :: _ => some (if isLetter b then (Bytes.lower name, rest) else ([], s))
  | _, _ => some ([], s)

def isPort : Bytes → Bool
  | [] => true
  | b :: rest => b = 0x3A && rest.all Bytes.isDigit

def zoneStart : Nat → Bytes → Option Nat
  | n, 0x25 :: 0x32 :: 0x35 :: _ => some n
  | n, _ :: rest => zoneStart (n + 1) rest
  | _, [] => none

def readHost (s : Bytes) : Option Bytes :=
  match s with
  | 0x5B :: _ =>
    match cutLast 0x5D s with
    | none => none
    | some (inside, after) =>
      if !isPort after then none
      else match zoneStart 0 inside with
        | some z => do
          let address ← unescape .host (inside.take z)
          let zone ← unescape .zone (inside.drop z)
          let rest ← unescape .host (0x5D :: after)
          return address ++ zone ++ rest
        | none => unescape .host s
  | _ =>
    match cutLast 0x3A s with
    | some (_, port) => if port.all Bytes.isDigit then unescape .host s else none
    | none => unescape .host s

def isUserInfo (s : Bytes) : Bool :=
  s.all fun b => isLetter b || Bytes.isDigit b || oneOf "-._:~!$&'()*+,;=%@" b

def readUser (s : Bytes) : Option (Bytes × Option Bytes) := do
  if !isUserInfo s then none
  match Bytes.splitAt 0x3A s with
  | none => return (← unescape .user s, none)
  | some (name, password) => return (← unescape .user name, some (← unescape .user password))

def readAuthority (s : Bytes) : Option (Option (Bytes × Option Bytes) × Bytes) :=
  match cutLast 0x40 s with
  | none => do return (none, ← readHost s)
  | some (user, host) => do
    let h ← readHost host
    return (some (← readUser user), h)

def splitQuery (s : Bytes) : Bytes × Bool × Bytes :=
  if s.getLast? = some 0x3F && s.count 0x3F = 1 then (s.dropLast, true, [])
  else
    let (rest, query) := cut 0x3F s
    (rest, false, query)

def withPath (u : Url) (s : Bytes) : Option Url := do
  let path ← unescape .path s
  return { u with path, rawPath := if escape .path path = s then [] else s }

def readMain (s : Bytes) : Option Url := do
  if s.any fun b => b < 0x20 || b = 0x7F then none
  if s = [0x2A] then return { (default : Url) with path := s }
  let (scheme, rest) ← splitScheme s
  let (rest, emptyQuery, query) := splitQuery rest
  let u : Url := { (default : Url) with scheme, emptyQuery, query }
  if !Bytes.beginsWith rest [0x2F] && !scheme.isEmpty then return { u with rootless := rest }
  if !Bytes.beginsWith rest [0x2F] && (cut 0x2F rest).1.contains 0x3A then none
  if (!scheme.isEmpty || !Bytes.beginsWith rest [0x2F, 0x2F, 0x2F]) &&
      Bytes.beginsWith rest [0x2F, 0x2F] then
    let authority := (rest.drop 2).takeWhile (· != 0x2F)
    let (user, host) ← readAuthority authority
    withPath { u with user, host } ((rest.drop 2).drop authority.length)
  else withPath { u with omitsHost := !scheme.isEmpty && Bytes.beginsWith rest [0x2F] } rest

def parse (s : Bytes) : Option Url := do
  let (main, fragment) := cut 0x23 s
  let u ← readMain main
  let f ← unescape .fragment fragment
  return { u with
    fragment := f
    rawFragment := if escape .fragment f = fragment then [] else fragment }

def isValidEncoding (part : Part) (s : Bytes) : Bool :=
  s.all fun b => oneOf "!$&'()*+,;=:@[]%" b || !needsEscape part b

/-- The written form of a part: as it was written, if that is valid, else escaped. -/
def encoded (part : Part) (raw value : Bytes) : Bytes :=
  if !raw.isEmpty && isValidEncoding part raw && unescape part raw = some value then raw
  else if part = .path && value = [0x2A] then value
  else escape part value

def userText : Bytes × Option Bytes → Bytes
  | (name, none) => escape .user name
  | (name, some password) => escape .user name ++ 0x3A :: escape .user password

def authorityBy (shown : Bytes × Option Bytes → Bytes) (u : Url) : Bytes :=
  if u.scheme.isEmpty && u.host.isEmpty && u.user.isNone then []
  else if u.omitsHost && u.host.isEmpty && u.user.isNone then []
  else
    (if !u.host.isEmpty || !u.path.isEmpty || u.user.isSome then [0x2F, 0x2F] else []) ++
      (match u.user with
        | some user => shown user ++ [0x40]
        | none => []) ++ escape .host u.host

def textBy (shown : Bytes × Option Bytes → Bytes) (u : Url) : Bytes :=
  let start := if u.scheme.isEmpty then [] else u.scheme ++ [0x3A]
  let main :=
    if !u.rootless.isEmpty then start ++ u.rootless
    else
      let before := start ++ u.authorityBy shown
      let path := encoded .path u.rawPath u.path
      let slash := !path.isEmpty && !Bytes.beginsWith path [0x2F] && !u.host.isEmpty
      let dots := before.isEmpty && !slash && (cut 0x2F path).1.contains 0x3A
      before ++ (if slash then [0x2F] else []) ++ (if dots then [0x2E, 0x2F] else []) ++ path
  main ++ (if u.emptyQuery || !u.query.isEmpty then 0x3F :: u.query else []) ++
    (if u.fragment.isEmpty then [] else 0x23 :: encoded .fragment u.rawFragment u.fragment)

def text (u : Url) : Bytes := u.textBy userText

def redacted (u : Url) : Bytes :=
  u.textBy fun user =>
    match user.2 with
    | some _ => user.1 ++ utf8 ":***"
    | none => userText user

/-- The address without a colon after its host that no port follows. -/
def withoutEmptyPort (u : Url) : Url :=
  if u.host.getLast? = some 0x3A then { u with host := u.host.dropLast } else u

end Url

end Overworld
