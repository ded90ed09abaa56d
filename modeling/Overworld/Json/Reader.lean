import Overworld.Failure

/-!
# Reading JSON documents

Source documents are read straight into records. A reader starts from an older value:
null leaves it as it is, and a name that occurs twice goes on from its first value.
Names are told apart without regard to case, and values under unknown names are passed
over with no more care than it takes to find their end. A zero byte ends the text.
-/

set_option autoImplicit false

namespace Overworld.Json

/-- Reads a value at a depth of nesting, given an older value. -/
def Reader (α : Type) : Type := Int → α → Bytes → Except Cause (α × Bytes)

def maxDepth : Int := 10000

def isSpace (b : UInt8) : Bool := b = 0x20 || b = 0x0A || b = 0x09 || b = 0x0D

def skipSpace (s : Bytes) : Bytes := s.dropWhile isSpace

def word (w : Bytes) (s : Bytes) : Except Cause Bytes :=
  match Bytes.dropBeginning? w s with
  | some rest => .ok rest
  | none => .error .json

def null (s : Bytes) : Except Cause Bytes := word (utf8 "null") s

def skipString : Bytes → Option Bytes
  | [] => none
  | [0x5C] => none
  | 0x5C :: _ :: rest => skipString rest
  | b :: rest => if b = 0x22 then some rest else skipString rest

/-- Passes an object or an array after its opening bracket. Only brackets of its own
kind are counted, brackets of both kinds for the depth. The arguments are: whether a
string is being passed, how many more brackets are open, and the depth. -/
def skipNested (opening closing : UInt8) : Bool → Nat → Int → Bytes → Option Bytes
  | _, _, _, [] => none
  | true, _, _, [0x5C] => none
  | true, n, d, 0x5C :: _ :: rest => skipNested opening closing true n d rest
  | true, n, d, b :: rest => skipNested opening closing (b != 0x22) n d rest
  | false, n, d, b :: rest =>
    if b = 0x22 then skipNested opening closing true n d rest
    else if b = 0x7B || b = 0x5B then
      if maxDepth < d + 1 then none
      else skipNested opening closing false (if b = opening then n + 1 else n) (d + 1) rest
    else if b = closing then
      match n with
      | 0 => some rest
      | n + 1 => skipNested opening closing false n (d - 1) rest
    else if b = 0x7D || b = 0x5D then skipNested opening closing false n (d - 1) rest
    else skipNested opening closing false n d rest

def isNumberByte (b : UInt8) : Bool :=
  Bytes.isDigit b || b = 0x2E || b = 0x65 || b = 0x45 || b = 0x2B || b = 0x2D

def skipValue (depth : Int) (s : Bytes) : Except Cause Bytes :=
  let found (o : Option Bytes) : Except Cause Bytes :=
    match o with
    | some rest => .ok rest
    | none => .error .json
  match skipSpace s with
  | [] => .error .json
  | b :: rest =>
    if b = 0x7B then found (skipNested 0x7B 0x7D false 0 (depth + 1) rest)
    else if b = 0x5B then found (skipNested 0x5B 0x5D false 0 (depth + 1) rest)
    else if b = 0x22 then found (skipString rest)
    else if b = 0x2D || Bytes.isDigit b then .ok (rest.dropWhile isNumberByte)
    else if b = 0x74 then word (utf8 "true") (b :: rest)
    else if b = 0x66 then word (utf8 "false") (b :: rest)
    else if b = 0x6E then null (b :: rest)
    else .error .json

def rawValue (depth : Int) (s : Bytes) : Except Cause (Bytes × Bytes) := do
  let s := skipSpace s
  let rest ← skipValue depth s
  return (s.take (s.length - rest.length), rest)

def stringText : Bytes → Bytes → Option (Bytes × Bytes)
  | _, [] => none
  | acc, 0x5C :: 0x75 :: a :: b :: c :: d :: rest =>
    if [a, b, c, d].all (Bytes.hexValue? · |>.isSome) then
      stringText (d :: c :: b :: a :: 0x75 :: 0x5C :: acc) rest
    else none
  | acc, 0x5C :: e :: rest =>
    if [0x22, 0x5C, 0x2F, 0x62, 0x66, 0x6E, 0x72, 0x74].contains e then
      stringText (e :: 0x5C :: acc) rest
    else none
  | acc, b :: rest => if b = 0x22 then some (acc.reverse, rest) else stringText (b :: acc) rest

def escapeByte (e : UInt8) : UInt8 :=
  if e = 0x62 then 0x08
  else if e = 0x66 then 0x0C
  else if e = 0x6E then 0x0A
  else if e = 0x72 then 0x0D
  else if e = 0x74 then 0x09
  else e

def unit (digits : Bytes) : Nat :=
  digits.foldl (fun n b => 16 * n + (Bytes.hexValue? b).getD 0) 0

def codePoint (n : Nat) : Bytes :=
  Utf8.encode [if n.isValidChar then Char.ofNat n else Utf8.replacement]

/-- What the first half of a surrogate pair stands for when no second half follows; zero
is none. -/
def loneHalf (half : Nat) : Bytes := if half = 0 then [] else codePoint half

def unescapeAfter : Nat → Bytes → Bytes
  | half, 0x5C :: 0x75 :: a :: b :: c :: d :: rest =>
    let n := unit [a, b, c, d]
    if half != 0 && 0xDC00 ≤ n && n < 0xE000 then
      codePoint (0x10000 + (half - 0xD800) * 0x400 + (n - 0xDC00)) ++ unescapeAfter 0 rest
    else if 0xD800 ≤ n && n < 0xDC00 then loneHalf half ++ unescapeAfter n rest
    else loneHalf half ++ codePoint n ++ unescapeAfter 0 rest
  | half, 0x5C :: e :: rest => loneHalf half ++ escapeByte e :: unescapeAfter 0 rest
  | half, b :: rest => loneHalf half ++ b :: unescapeAfter 0 rest
  | half, [] => loneHalf half

def unescape (s : Bytes) : Bytes := unescapeAfter 0 s

def string : Reader Bytes := fun _ old s =>
  match skipSpace s with
  | 0x22 :: rest =>
    match stringText [] rest with
    | some (t, rest) => .ok (unescape t, rest)
    | none => .error .json
  | 0x6E :: rest => do return (old, ← null (0x6E :: rest))
  | _ => .error .json

def digits64 (ds : Bytes) : Int64 :=
  ds.foldl (fun n b => n * 10 + Int64.ofNat (b.toNat - 0x30)) 0

/-- Reads a whole number between two bounds. Nineteen digits are taken at most, in
64-bit arithmetic. -/
def integer (lo hi : Int) : Reader Int := fun _ old s =>
  let within (n : Int64) (rest : Bytes) : Except Cause (Int × Bytes) :=
    if lo ≤ n.toInt && n.toInt ≤ hi then .ok (n.toInt, rest) else .error .json
  match skipSpace s with
  | 0x30 :: rest => within 0 rest
  | 0x6E :: rest => do return (old, ← null (0x6E :: rest))
  | 0x2D :: rest =>
    let ds := rest.takeWhile Bytes.isDigit
    if 19 < ds.length then .error .json else within (0 - digits64 ds) (rest.drop ds.length)
  | b :: rest =>
    let ds := (b :: rest).takeWhile Bytes.isDigit
    if ds.isEmpty || 19 < ds.length then .error .json
    else within (digits64 ds) ((b :: rest).drop ds.length)
  | [] => .error .json

/-- Reads a whole number that is not negative, up to a bound. Twenty digits are taken at
most, in 64-bit arithmetic. -/
def natural (hi : Nat) : Reader Nat := fun _ old s =>
  let within (n : Nat) (rest : Bytes) : Except Cause (Nat × Bytes) :=
    if n ≤ hi then .ok (n, rest) else .error .json
  match skipSpace s with
  | 0x30 :: rest => within 0 rest
  | 0x6E :: rest => do return (old, ← null (0x6E :: rest))
  | b :: rest =>
    let ds := (b :: rest).takeWhile Bytes.isDigit
    if ds.isEmpty || 20 < ds.length then .error .json
    else
      within (ds.foldl (fun n d => (n * 10 + (d.toNat - 0x30)) % 0x10000000000000000) 0)
        ((b :: rest).drop ds.length)
  | [] => .error .json

/-- Reads the items of a list after its opening bracket. An older item of the same place
is gone on from. -/
def items {α : Type} (zero : α) (r : Reader α) (depth : Int) :
    Nat → List α → List α → Bytes → Except Cause (List α × Bytes)
  | 0, _, _, _ => .error .json
  | fuel + 1, olds, acc, s => do
    let (x, rest) ← r depth (olds.head?.getD zero) s
    match skipSpace rest with
    | 0x5D :: rest => return ((x :: acc).reverse, rest)
    | 0x2C :: rest => items zero r depth fuel olds.tail (x :: acc) rest
    | _ => .error .json

/-- Reads a list. Null is no list, which is not the same as an empty one. -/
def list {α : Type} (zero : α) (r : Reader α) : Reader (Option (List α)) := fun depth old s =>
  if maxDepth < depth + 1 then .error .json
  else match skipSpace s with
    | 0x6E :: rest => do return (none, ← null (0x6E :: rest))
    | 0x5B :: rest =>
      match skipSpace rest with
      | 0x5D :: rest => .ok (some [], rest)
      | rest => do
        let (xs, rest) ← items zero r (depth + 1) (rest.length + 1) (old.getD []) [] rest
        return (some xs, rest)
    | _ => .error .json

/-- A field of a record: its name in lower case and how its value is read into the
record. -/
structure Field (σ : Type) where
  name : Bytes
  read : Reader σ

def Field.of {σ α : Type} (name : String) (r : Reader α) (get : σ → α) (set : σ → α → σ) :
    Field σ :=
  ⟨utf8 name, fun depth old s => do
    let (x, rest) ← r depth (get old) s
    return (set old x, rest)⟩

/-- Names that a key may still be, each with what is left of it. -/
abbrev Candidates := List (Bytes × Bytes)

def narrow (cs : Candidates) (b : UInt8) : Candidates :=
  cs.filterMap fun c =>
    match c.2 with
    | x :: rest => if x = Bytes.lowerByte b then some (c.1, rest) else none
    | [] => none

/-- Reads a key after its opening quote. A key is the first of the names that it begins,
if it is written with at least as many bytes as that name has. An escape that does not
exist is passed over together with the byte after it. -/
def key : Candidates → Nat → Bytes → Except Cause (Option Bytes × Bytes)
  | _, _, [] => .error .json
  | cs, n, 0x5C :: 0x75 :: a :: b :: c :: d :: rest =>
    let code := unit [a, b, c, d]
    let cs' := if code < 0x80 then narrow cs (UInt8.ofNat code) else []
    if cs'.isEmpty then unknown (a :: b :: c :: d :: rest) else key cs' (n + 6) rest
  | _, _, [0x5C] => .error .json
  | _, _, [0x5C, _] => .error .json
  | cs, n, 0x5C :: e :: x :: rest =>
    if e = 0x75 then .error .json
    else if [0x22, 0x5C, 0x2F, 0x62, 0x66, 0x6E, 0x72, 0x74].contains e then unknown (x :: rest)
    else key cs (n + 3) rest
  | cs, n, b :: rest =>
    if b = 0x22 then
      if n = 0 then .ok (none, rest)
      else match cs with
        | (name, _) :: _ => .ok (if n < name.length then none else some name, rest)
        | [] => .ok (none, rest)
    else
      let cs' := narrow cs b
      if cs'.isEmpty then unknown rest else key cs' (n + 1) rest
where
  unknown (s : Bytes) : Except Cause (Option Bytes × Bytes) :=
    match skipString s with
    | some rest => .ok (none, rest)
    | none => .error .json

def fields {σ : Type} (fs : List (Field σ)) (depth : Int) :
    Nat → σ → Bytes → Except Cause (σ × Bytes)
  | 0, _, _ => .error .json
  | fuel + 1, st, s => do
    match skipSpace s with
    | 0x22 :: s =>
      let (name, rest) ← key (fs.map fun f => (f.name, f.name)) 0 s
      match skipSpace rest with
      | 0x3A :: rest =>
        let (st, rest) ← match name.bind fun n => fs.find? (·.name == n) with
          | some f => f.read depth st rest
          | none => do pure (st, ← skipValue depth rest)
        match skipSpace rest with
        | 0x7D :: rest => return (st, rest)
        | 0x2C :: rest => fields fs depth fuel st rest
        | _ => .error .json
      | _ => .error .json
    | _ => .error .json

def record {σ : Type} (fs : List (Field σ)) : Reader σ := fun depth old s =>
  if maxDepth < depth + 1 then .error .json
  else match skipSpace s with
    | 0x6E :: rest => do return (old, ← null (0x6E :: rest))
    | 0x7B :: rest =>
      match skipSpace rest with
      | 0x7D :: rest => .ok (old, rest)
      | rest => fields fs (depth + 1) (rest.length + 1) old rest
    | _ => .error .json

/-- Reads the entries of an object after its opening brace, their values as text. A
later entry replaces an earlier one. -/
def entries (depth : Int) :
    Nat → List (Bytes × Bytes) → Bytes → Except Cause (List (Bytes × Bytes) × Bytes)
  | 0, _, _ => .error .json
  | fuel + 1, acc, s => do
    let (k, rest) ← string depth [] s
    match skipSpace rest with
    | 0x3A :: rest =>
      let (v, rest) ← rawValue depth rest
      match skipSpace rest with
      | 0x7D :: rest => return ((k, v) :: acc, rest)
      | 0x2C :: rest => entries depth fuel ((k, v) :: acc) rest
      | _ => .error .json
    | _ => .error .json

def object : Reader (List (Bytes × Bytes)) := fun depth _ s =>
  if maxDepth < depth + 1 then .error .json
  else match skipSpace s with
    | 0x6E :: rest => do return ([], ← null (0x6E :: rest))
    | 0x7B :: rest =>
      match skipSpace rest with
      | 0x7D :: rest => .ok ([], rest)
      | rest => entries (depth + 1) (rest.length + 1) [] rest
    | _ => .error .json

def document {α : Type} (r : Reader α) (zero : α) (s : Bytes) : Except Cause α := do
  let (x, rest) ← r 0 zero (s.takeWhile (· != 0))
  if (skipSpace rest).isEmpty then return x else .error .json

end Overworld.Json
