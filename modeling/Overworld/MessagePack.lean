import Overworld.Text.Bytes

/-!
# MessagePack

A compact binary form for values. Every type that is kept has a codec, which writes one
form and reads many: numbers of any width, texts in any of their forms, and nothing in
place of zero, of an empty text and of a missing list. A value is read over an old one, since a
part may be stated twice.
-/

set_option autoImplicit false

namespace Overworld.MessagePack

def bigEndian (width value : Nat) : Bytes :=
  (List.range width).reverse.map fun i => UInt8.ofNat (value / Nat.pow 256 i % 256)

def valueOf (bytes : Bytes) : Nat := bytes.foldl (fun n b => 256 * n + b.toNat) 0

def takeBytes (n : Nat) (s : Bytes) : Option (Bytes × Bytes) :=
  let taken := s.take n
  if taken.length = n then some (taken, s.drop n) else none

def natural (width : Nat) (s : Bytes) : Option (Nat × Bytes) :=
  (takeBytes width s).map fun (bytes, rest) => (valueOf bytes, rest)

def signed (width : Nat) (s : Bytes) : Option (Int × Bytes) :=
  (natural width s).map fun (n, rest) => (Int.bmod n (Nat.pow 256 width), rest)

/-- Reads an integer in any form. Nothing stands for zero. -/
def integer : Bytes → Option (Int × Bytes)
  | [] => none
  | code :: s =>
    if code = 0xC0 then some (0, s)
    else if code < 0x80 then some (code.toNat, s)
    else if 0xE0 ≤ code then some ((code.toNat : Int) - 256, s)
    else match code with
      | 0xCC => (natural 1 s).map fun (n, s) => ((n : Int), s)
      | 0xCD => (natural 2 s).map fun (n, s) => ((n : Int), s)
      | 0xCE => (natural 4 s).map fun (n, s) => ((n : Int), s)
      | 0xCF => (natural 8 s).map fun (n, s) => ((n : Int), s)
      | 0xD0 => signed 1 s
      | 0xD1 => signed 2 s
      | 0xD2 => signed 4 s
      | 0xD3 => signed 8 s
      | _ => none

def textLength (code : UInt8) (s : Bytes) : Option (Nat × Bytes) :=
  if code = 0xC0 then some (0, s)
  else if 0xA0 ≤ code && code ≤ 0xBF then some (code.toNat - 0xA0, s)
  else match code with
    | 0xD9 | 0xC4 => natural 1 s
    | 0xDA | 0xC5 => natural 2 s
    | 0xDB | 0xC6 => natural 4 s
    | _ => none

/-- Reads a text, or binary data as one. Nothing stands for the empty text. -/
def text : Bytes → Option (Bytes × Bytes)
  | [] => none
  | code :: s => do
    let (n, s) ← textLength code s
    takeBytes n s

def listLength (code : UInt8) (s : Bytes) : Option (Option Nat × Bytes) :=
  if code = 0xC0 then some (none, s)
  else if 0x90 ≤ code && code ≤ 0x9F then some (some (code.toNat - 0x90), s)
  else match code with
    | 0xDC => (natural 2 s).map fun (n, s) => (some n, s)
    | 0xDD => (natural 4 s).map fun (n, s) => (some n, s)
    | _ => none

def mapLength (code : UInt8) (s : Bytes) : Option (Option Nat × Bytes) :=
  if code = 0xC0 then some (none, s)
  else if 0x80 ≤ code && code ≤ 0x8F then some (some (code.toNat - 0x80), s)
  else match code with
    | 0xDE => (natural 2 s).map fun (n, s) => (some n, s)
    | 0xDF => (natural 4 s).map fun (n, s) => (some n, s)
    | _ => none

def extensionLength (code : UInt8) (s : Bytes) : Option (Nat × Bytes) :=
  match code with
  | 0xD4 => some (2, s)
  | 0xD5 => some (3, s)
  | 0xD6 => some (5, s)
  | 0xD7 => some (9, s)
  | 0xD8 => some (17, s)
  | 0xC7 => (natural 1 s).map fun (n, s) => (n + 1, s)
  | 0xC8 => (natural 2 s).map fun (n, s) => (n + 1, s)
  | 0xC9 => (natural 4 s).map fun (n, s) => (n + 1, s)
  | _ => none

def content (code : UInt8) (s : Bytes) : Option (Nat × Nat × Bytes) :=
  if code < 0x80 || 0xE0 ≤ code then some (0, 0, s)
  else if code < 0x90 then some (0, 2 * (code.toNat - 0x80), s)
  else if code < 0xA0 then some (0, code.toNat - 0x90, s)
  else match code with
    | 0xC0 | 0xC2 | 0xC3 => some (0, 0, s)
    | 0xCC | 0xD0 => some (1, 0, s)
    | 0xCD | 0xD1 => some (2, 0, s)
    | 0xCE | 0xD2 | 0xCA => some (4, 0, s)
    | 0xCF | 0xD3 | 0xCB => some (8, 0, s)
    | 0xDC => (natural 2 s).map fun (n, s) => (0, n, s)
    | 0xDD => (natural 4 s).map fun (n, s) => (0, n, s)
    | 0xDE => (natural 2 s).map fun (n, s) => (0, 2 * n, s)
    | 0xDF => (natural 4 s).map fun (n, s) => (0, 2 * n, s)
    | _ =>
      ((textLength code s).orElse fun _ => extensionLength code s).map fun (n, s) => (n, 0, s)

/-- Passes over so many values. Each takes a byte at least, so the first number, if it is that
of the bytes, suffices. -/
def skipValues : Nat → Nat → Bytes → Option Bytes
  | _, 0, s => some s
  | 0, _ + 1, _ => none
  | fuel + 1, pending + 1, s =>
    match s with
    | [] => none
    | code :: s => do
      let (bytes, values, s) ← content code s
      let (_, s) ← takeBytes bytes s
      skipValues fuel (pending + values) s

def skip (s : Bytes) : Option Bytes := skipValues s.length 1 s

/-- How a type is written and read. Reading is given an old value, which the parts that are
not stated keep. -/
structure Codec (α : Type) where
  write : α → Bytes
  read : α → Bytes → Option (α × Bytes)

namespace Codec

def text : Codec Bytes where
  write s :=
    let n := s.length
    (if n < 32 then [UInt8.ofNat (0xA0 + n)]
      else if n < 0x100 then 0xD9 :: bigEndian 1 n
      else if n < 0x10000 then 0xDA :: bigEndian 2 n
      else 0xDB :: bigEndian 4 n) ++ s
  read _ s := MessagePack.text s

/-- Numbers of 16 bits with sign, in full width. A wider number is read by its low bits. -/
def int16 : Codec Int16 where
  write n := 0xD1 :: bigEndian 2 n.toUInt16.toNat
  read _ s := (integer s).map fun (n, s) => (Int16.ofInt n, s)

def int32 : Codec Int32 where
  write n := 0xD2 :: bigEndian 4 n.toUInt32.toNat
  read _ s := (integer s).map fun (n, s) => (Int32.ofInt n, s)

def uint16 : Codec UInt16 where
  write n := 0xCD :: bigEndian 2 n.toNat
  read _ s := (integer s).map fun (n, s) => (UInt16.ofNat (n % 0x10000).toNat, s)

def shortest (n : Int) : Bytes :=
  if 0 ≤ n then
    let m := n.toNat
    if m < 0x80 then [UInt8.ofNat m]
    else if m < 0x100 then 0xCC :: bigEndian 1 m
    else if m < 0x10000 then 0xCD :: bigEndian 2 m
    else if m < 0x100000000 then 0xCE :: bigEndian 4 m
    else 0xCF :: bigEndian 8 m
  else
    let low (width : Nat) : Nat := (n % (Nat.pow 256 width : Nat)).toNat
    if -0x20 ≤ n then [UInt8.ofNat (low 1)]
    else if -0x80 ≤ n then 0xD0 :: bigEndian 1 (low 1)
    else if -0x8000 ≤ n then 0xD1 :: bigEndian 2 (low 2)
    else if -0x80000000 ≤ n then 0xD2 :: bigEndian 4 (low 4)
    else 0xD3 :: bigEndian 8 (low 8)

def int64 : Codec Int64 where
  write n := shortest n.toInt
  read _ s := (integer s).map fun (n, s) => (Int64.ofInt n, s)

def listHead (n : Nat) : Bytes :=
  if n < 16 then [UInt8.ofNat (0x90 + n)]
  else if n < 0x10000 then 0xDC :: bigEndian 2 n
  else 0xDD :: bigEndian 4 n

/-- Reads so many elements, each over the old one in its place. -/
def readItems {α : Type} (c : Codec α) (zero : α) :
    Nat → List α → Bytes → Option (List α × Bytes)
  | 0, _, s => some ([], s)
  | n + 1, old, s => do
    let (x, s) ← c.read (old.headD zero) s
    let (xs, s) ← readItems c zero n old.tail s
    return (x :: xs, s)

def list {α : Type} (c : Codec α) (zero : α) : Codec (Option (List α)) where
  write
    | none => [0xC0]
    | some xs => listHead xs.length ++ xs.flatMap c.write
  read old s :=
    match s with
    | [] => none
    | code :: s => do
      let (length, s) ← listLength code s
      match length with
      | none => return (none, s)
      | some n =>
        let (xs, s) ← readItems c zero n (old.getD []) s
        return (some xs, s)

structure Field (σ : Type) where
  key : Bytes
  write : σ → Bytes
  read : σ → Bytes → Option (σ × Bytes)

def Field.of {σ α : Type} (key : String) (c : Codec α) (get : σ → α) (set : σ → α → σ) :
    Field σ where
  key := utf8 key
  write r := c.write (get r)
  read r s := (c.read (get r) s).map fun (x, s) => (set r x, s)

/-- Reads so many entries of a map. An entry with a key of no part is passed over. -/
def readEntries {σ : Type} (fields : List (Field σ)) : Nat → σ → Bytes → Option (σ × Bytes)
  | 0, r, s => some (r, s)
  | n + 1, r, s => do
    let (key, s) ← MessagePack.text s
    match fields.find? (·.key = key) with
    | some field =>
      let (r, s) ← field.read r s
      readEntries fields n r s
    | none => readEntries fields n r (← skip s)

def readParts {σ : Type} : List (Field σ) → σ → Bytes → Option (σ × Bytes)
  | [], r, s => some (r, s)
  | field :: fields, r, s => do
    let (r, s) ← field.read r s
    readParts fields r s

def mapHead (n : Nat) : Bytes :=
  if n < 16 then [UInt8.ofNat (0x80 + n)]
  else if n < 0x10000 then 0xDE :: bigEndian 2 n
  else 0xDF :: bigEndian 4 n

/-- Records, as maps from the keys of their parts. A list of all parts in order is read too; a
missing map or an empty list gives the zero record. -/
def record {σ : Type} (zero : σ) (fields : List (Field σ)) : Codec σ where
  write r := mapHead fields.length ++ fields.flatMap fun f => text.write f.key ++ f.write r
  read old s :=
    match s with
    | [] => none
    | code :: s =>
      match mapLength code s with
      | some (none, s) => some (zero, s)
      | some (some n, s) => readEntries fields n old s
      | none => do
        let (length, s) ← listLength code s
        match length.getD 0 with
        | 0 => return (zero, s)
        | n + 1 => if n + 1 = fields.length then readParts fields old s else none

def optional {α : Type} (c : Codec α) (zero : α) : Codec (Option α) where
  write
    | none => [0xC0]
    | some x => c.write x
  read old s :=
    match s with
    | 0xC0 :: s => some (none, s)
    | s => (c.read (old.getD zero) s).map fun (x, s) => (some x, s)

end Codec

end Overworld.MessagePack
