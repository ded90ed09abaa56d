import Overworld.Zstandard.Bits

/-!
# State tables

Symbols are coded by walking through the states of a table. A state has a symbol, and says
how the next state is found: a base plus a number of that many bits. The table follows from
how often each symbol is expected, which a header states in units of one cell.
-/

set_option autoImplicit false

namespace Overworld.Zstandard

structure Cell where
  symbol : Nat
  /-- How many bits choose the next state. -/
  bits : Nat
  base : Nat
  deriving DecidableEq, Repr, Inhabited

structure StateTable where
  log : Nat
  cells : Array Cell
  deriving DecidableEq, Repr

/-- How many cells a symbol gets. A rare one gets a single cell, at the end of the table. -/
inductive Share where
  | rare
  | cells (n : Nat)
  deriving DecidableEq, Repr

def Share.size : Share → Nat
  | .rare => 1
  | .cells n => n

structure Shares where
  log : Nat
  shares : List Share
  deriving DecidableEq, Repr

namespace Shares

def minLog : Nat := 5

def lastSymbol : Nat := 255

/-- Reads one share where `left - 1` cells are still to be given away: a number up to `left`
in as few bits as that allows. Gives it with the number of bits read. -/
def readShare (left : Nat) (bits : Bits) : Share × Nat :=
  let width := Nat.log2 left
  let threshold := Nat.pow 2 width
  let spared := 2 * threshold - 1 - left
  let small := Bits.low width bits
  let (n, used) :=
    if small < spared then (small, width)
    else
      let full := Bits.low (width + 1) bits
      (if threshold ≤ full then full - spared else full, width + 1)
  (if n = 0 then .rare else .cells (n - 1), used)

/-- Reads how many further symbols have no cells: pairs of bits, of which a three says that
another pair follows. Gives their number with the number of bits read. -/
def readAbsent : Nat → Bits → Nat × Nat
  | 0, _ => (0, 0)
  | fuel + 1, bits =>
    let n := Bits.low 2 bits
    if n < 3 then (n, 2)
    else
      let (more, used) := readAbsent fuel (bits.drop 2)
      (3 + more, 2 + used)

/-- Reads shares until every cell is given away. The shares read so far stand in reverse;
after a symbol without cells the number of such symbols follows. -/
def readShares : Nat → (left : Nat) → List Share → (afterAbsent : Bool) → Bits → Nat →
    Option (List Share × Nat)
  | 0, _, _, _, _, _ => none
  | fuel + 1, left, shares, afterAbsent, bits, used =>
    if left ≤ 1 then some (shares.reverse, used)
    else
      let (absent, width) := if afterAbsent then readAbsent (lastSymbol + 1) bits else (0, 0)
      if lastSymbol < shares.length + absent then none
      else
        let bits := bits.drop width
        let shares := List.replicate absent (Share.cells 0) ++ shares
        let (share, width') := readShare left bits
        readShares fuel (left - share.size) (share :: shares) (share = .cells 0)
          (bits.drop width') (used + width + width')

def maxHeader : Nat := 1024

/-- Reads a header of at least four bytes with what follows it, and gives the rest. At least
two symbols are named. -/
def read? (maxLog maxSymbol : Nat) (bytes : Bytes) : Option (Shares × Bytes) := do
  guard (4 ≤ bytes.length)
  let bits := Bits.forward (bytes.take maxHeader)
  let log := Bits.low 4 bits + minLog
  guard (log ≤ maxLog)
  let (shares, used) ← readShares (lastSymbol + 2) (Nat.pow 2 log + 1) [] false (bits.drop 4) 4
  guard (2 ≤ shares.length && shares.length ≤ maxSymbol + 1)
  guard (used ≤ 8 * bytes.length)
  return (⟨log, shares⟩, bytes.drop ((used + 7) / 8))

def rare (s : Shares) : List Nat :=
  s.shares.zipIdx.filterMap fun (share, symbol) => if share = .rare then some symbol else none

def spread (s : Shares) : List Nat :=
  s.shares.zipIdx.flatMap fun (share, symbol) => match share with
    | .rare => []
    | .cells n => List.replicate n symbol

/-- The cells in the order in which symbols are laid into them, from the first cell in steps
that reach every cell once. -/
def order (log : Nat) : List Nat :=
  let size := Nat.pow 2 log
  (List.range size).map fun i => i * (size / 2 + size / 8 + 3) % size

def symbols (s : Shares) : Array Nat :=
  let size := Nat.pow 2 s.log
  let free := size - s.rare.length
  let start := (Array.replicate free 0) ++ s.rare.reverse.toArray
  ((order s.log).filter (· < free)).zip s.spread |>.foldl
    (fun cells (i, symbol) => cells.setIfInBounds i symbol) start

/-- Fills in how each state goes on. The occurrences of a symbol are numbered from its share
on, and the number says where the next state is. -/
def number (log : Nat) : List Nat → Array Nat → List Cell
  | [], _ => []
  | symbol :: rest, next =>
    let n := next.getD symbol 1
    let bits := log - Nat.log2 n
    ⟨symbol, bits, n * Nat.pow 2 bits - Nat.pow 2 log⟩ ::
      number log rest (next.setIfInBounds symbol (n + 1))

/-- The table of a header. A state from which nothing leads away is refused. -/
def table? (s : Shares) : Option StateTable := do
  let cells := number s.log s.symbols.toList (s.shares.map Share.size).toArray
  guard (cells.zipIdx.all fun (cell, i) => !(cell.bits = 0 && cell.base = i))
  return ⟨s.log, cells.toArray⟩

end Shares

namespace StateTable

def single (symbol : Nat) : StateTable := ⟨0, #[⟨symbol, 0, 0⟩]⟩

def cell (t : StateTable) (state : Nat) : Cell := t.cells.getD state default

def start? (t : StateTable) (bits : Bits) : Option (Nat × Bits) := Bits.take? t.log bits

def next? (t : StateTable) (state : Nat) (bits : Bits) : Option (Nat × Bits) := do
  let c := t.cell state
  let (n, rest) ← Bits.take? c.bits bits
  return (c.base + n, rest)

end StateTable

end Overworld.Zstandard
