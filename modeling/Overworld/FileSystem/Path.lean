import Overworld.Text.Bytes

/-!
# Paths

Slash-separated paths and their shortest form, in which a dot-dot stands only at the
beginning of a relative path.
-/

set_option autoImplicit false

namespace Overworld.Path

def slash : UInt8 := 0x2F

def dot : Bytes := [0x2E]

def dotDot : Bytes := [0x2E, 0x2E]

def components (p : Bytes) : List Bytes := Bytes.splitOn slash p

/-- One component after others, held last first. Going up takes back the last ordinary
name; above the start it stays, unless the path is rooted. -/
def push (rooted : Bool) (above : List Bytes) (c : Bytes) : List Bytes :=
  if c.isEmpty || c = dot then above
  else if c = dotDot then
    match above with
    | [] => if rooted then [] else [dotDot]
    | last :: rest => if last = dotDot then dotDot :: above else rest
  else c :: above

/-- The components that are left when every possible step up has been taken back. -/
def reduce (rooted : Bool) (cs : List Bytes) : List Bytes := (cs.foldl (push rooted) []).reverse

def isRooted (p : Bytes) : Bool := p.head? = some slash

def clean (p : Bytes) : Bytes :=
  let rest := Bytes.join [slash] (reduce (isRooted p) (components p))
  if isRooted p then slash :: rest else if rest.isEmpty then dot else rest

/-- Paths joined one below the other, in shortest form. Empty ones at the beginning do
not count. -/
def join (ps : List Bytes) : Bytes :=
  match ps.dropWhile List.isEmpty with
  | [] => []
  | used => clean (Bytes.join [slash] used)

def lastPart (p : Bytes) : Bytes := (p.reverse.takeWhile (· != slash)).reverse

/-- The path without the slashes after its last component, if there is one. -/
def trimEnd (p : Bytes) : Bytes :=
  let stem := Bytes.trimRight slash p
  if stem.isEmpty then p else stem

def directory (p : Bytes) : Bytes := clean (p.take (p.length - (lastPart p).length))

def base (p : Bytes) : Bytes :=
  if p.isEmpty then dot
  else
    let name := lastPart (Bytes.trimRight slash p)
    if name.isEmpty then [slash] else name

def suffix (p : Bytes) : Bytes :=
  let name := lastPart p
  if name.contains 0x2E then 0x2E :: (name.reverse.takeWhile (· != 0x2E)).reverse else []

end Overworld.Path
