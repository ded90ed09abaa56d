import Overworld.Text.Bytes

/-!
# Digests

The 64-bit xxHash of a text, with seed zero, taken at once or piece by piece.
-/

set_option autoImplicit false

namespace Overworld.Digest

def prime1 : UInt64 := 11400714785074694791

def prime2 : UInt64 := 14029467366897019727

def prime3 : UInt64 := 1609587929392839161

def prime4 : UInt64 := 9650029242287828579

def prime5 : UInt64 := 2870177450012600261

def rotate (x : UInt64) (n : UInt64) : UInt64 := (x <<< n) ||| (x >>> (64 - n))

def littleEndian (bs : Bytes) : UInt64 :=
  bs.foldr (fun b n => n * 256 + UInt64.ofNat b.toNat) 0

def round (lane word : UInt64) : UInt64 := rotate (lane + word * prime2) 31 * prime1

def merge (h lane : UInt64) : UInt64 := (h ^^^ round 0 lane) * prime1 + prime4

structure Lanes where
  a : UInt64
  b : UInt64
  c : UInt64
  d : UInt64
  deriving DecidableEq, Repr

namespace Lanes

def start : Lanes := ⟨prime1 + prime2, prime2, 0, 0 - prime1⟩

def block (l : Lanes) (bs : Bytes) : Lanes :=
  ⟨round l.a (littleEndian (bs.take 8)), round l.b (littleEndian ((bs.drop 8).take 8)),
    round l.c (littleEndian ((bs.drop 16).take 8)), round l.d (littleEndian ((bs.drop 24).take 8))⟩

def value (l : Lanes) : UInt64 :=
  let h := rotate l.a 1 + rotate l.b 7 + rotate l.c 12 + rotate l.d 18
  merge (merge (merge (merge h l.a) l.b) l.c) l.d

/-- Takes as many whole blocks as there are; the number bounds how many. -/
def blocks : Nat → Lanes → Bytes → Lanes × Bytes
  | 0, l, bs => (l, bs)
  | n + 1, l, bs => blocks n (l.block (bs.take 32)) (bs.drop 32)

end Lanes

def tail : UInt64 → Bytes → UInt64
  | h, a :: b :: c :: d :: e :: f :: g :: i :: rest =>
    let word := littleEndian [a, b, c, d, e, f, g, i]
    tail (rotate (h ^^^ round 0 word) 27 * prime1 + prime4) rest
  | h, a :: b :: c :: d :: rest =>
    tail (rotate (h ^^^ (littleEndian [a, b, c, d] * prime1)) 23 * prime2 + prime3) rest
  | h, a :: rest => tail (rotate (h ^^^ (UInt64.ofNat a.toNat * prime5)) 11 * prime1) rest
  | h, [] => h

def finish (h : UInt64) : UInt64 :=
  let h := (h ^^^ (h >>> 33)) * prime2
  let h := (h ^^^ (h >>> 29)) * prime3
  h ^^^ (h >>> 32)

def xxHash64 (bs : Bytes) : UInt64 :=
  let n := bs.length
  let (h, rest) :=
    if 32 ≤ n then
      let (lanes, rest) := Lanes.blocks (n / 32) Lanes.start bs
      (lanes.value, rest)
    else (prime5, bs)
  finish (tail (h + UInt64.ofNat n) rest)

def bigEndian (h : UInt64) : Bytes :=
  ([56, 48, 40, 32, 24, 16, 8, 0] : List UInt64).map fun n => UInt8.ofNat ((h >>> n).toNat % 256)

def hex (h : UInt64) : Bytes := utf8 (Bytes.toHex (bigEndian h))

/-- A digest that is taken piece by piece: the lanes after the whole blocks so far, the bytes that
wait for their block to be filled, and the number of all bytes. -/
structure Running where
  lanes : Lanes
  waiting : Bytes
  total : Nat
  deriving DecidableEq, Repr

namespace Running

def start : Running := ⟨.start, [], 0⟩

def write (r : Running) (piece : Bytes) : Running :=
  let bytes := r.waiting ++ piece
  let (lanes, rest) := Lanes.blocks (bytes.length / 32) r.lanes bytes
  ⟨lanes, rest, r.total + piece.length⟩

def value (r : Running) : UInt64 :=
  let h := if 32 ≤ r.total then r.lanes.value else r.lanes.c + prime5
  finish (tail (h + UInt64.ofNat r.total) r.waiting)

end Running

end Overworld.Digest
