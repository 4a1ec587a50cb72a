import Sluice.Entropy.Bits

namespace Sluice.Entropy

structure Fse.Cell where
  symbol : Nat
  bits : Nat
  base : Nat

structure Fse where
  log : Nat
  cells : Array Fse.Cell

namespace Fse

def constant (symbol : Nat) : Fse := ⟨0, #[⟨symbol, 0, 0⟩]⟩

def cell (t : Fse) (state : Nat) : Cell := (t.cells[state]?).getD ⟨0, 0, 0⟩

def nextPosition (size high : Nat) : (fuel position : Nat) → Nat
  | 0, position => position
  | fuel + 1, position =>
    let position := (position + size / 2 + size / 8 + 3) % size
    if high < position then nextPosition size high fuel position else position

def place (size high symbol : Nat) : (n position : Nat) → Array Nat → Nat × Array Nat
  | 0, position, states => (position, states)
  | n + 1, position, states =>
    place size high symbol n (nextPosition size high size position)
      (states.setIfInBounds position symbol)

/-- The symbol of every state. Rare symbols take one state each from the top down; the others are
spread over the rest in steps. -/
def spread (size : Nat) (counts : Array Int) : Array Nat :=
  let symbols := List.range counts.size
  let count (s : Nat) := (counts[s]?).getD 0
  let rare := symbols.filter (count · = -1)
  let states := rare.zipIdx.foldl
    (fun states (s, i) => states.setIfInBounds (size - 1 - i) s) (Array.replicate size 0)
  let high := size - 1 - rare.length
  (symbols.foldl
    (fun (position, states) s => place size high s (count s).toNat position states) (0, states)).2

def transitions (log : Nat) (states : Array Nat) (next : Array Nat) : Array Cell :=
  (states.foldl (fun (cells, next) s =>
    let x := (next[s]?).getD 1
    let bits := log - Nat.log2 x
    (cells.push ⟨s, bits, (x <<< bits) - (1 <<< log)⟩, next.setIfInBounds s (x + 1)))
    ((#[], next) : Array Cell × Array Nat)).1

def ofCounts (log : Nat) (counts : Array Int) : Fse :=
  let next := counts.map fun c => if c = -1 then 1 else c.toNat
  ⟨log, transitions log (spread (1 <<< log) counts) next⟩

/-- Zero counts are followed by how many more there are, in pairs of bits up to one below 3. -/
def readZeros (b : ByteArray) : (fuel bit : Nat) → Array Int → Nat × Array Int
  | 0, bit, counts => (bit, counts)
  | fuel + 1, bit, counts =>
    let n := bitsAt b bit 2
    let counts := counts ++ Array.replicate n 0
    if n = 3 then readZeros b fuel (bit + 2) counts else (bit + 2, counts)

/-- Read counts until they make up the whole table. A count takes as many bits as what remains
may need, and one less where the high bit can be told. -/
def readCountsFrom (b : ByteArray) : (fuel bit remaining : Nat) → Array Int →
    Option (Nat × Array Int)
  | 0, _, _, _ => none
  | fuel + 1, bit, remaining, counts =>
    if remaining = 0 then some (bit, counts)
    else
      let width := Nat.log2 (remaining + 1) + 1
      let half := 1 <<< (width - 1)
      let v := bitsAt b bit width
      let spare := 2 * half - 1 - (remaining + 1)
      let (v, used) :=
        if v % half < spare then (v % half, width - 1)
        else (if half ≤ v then v - spare else v, width)
      let taken := if v = 0 then 1 else v - 1
      if remaining < taken then none
      else
        let counts := counts.push ((v : Int) - 1)
        let bit := bit + used
        let (bit, counts) := if v = 1 then readZeros b 256 bit counts else (bit, counts)
        readCountsFrom b fuel bit (remaining - taken) counts

def read? (b : ByteArray) (offset maxLog maxSymbol : Nat) : Option (Fse × Nat) := do
  let log := bitsAt b (8 * offset) 4 + 5
  guard (log ≤ maxLog)
  let (bit, counts) ← readCountsFrom b (maxSymbol + 2) (8 * offset + 4) (1 <<< log) #[]
  guard (counts.size ≤ maxSymbol + 1)
  let stop := (bit + 7) / 8
  guard (stop ≤ b.size)
  return (ofCounts log counts, stop)

def start (t : Fse) (s : Backward) : Nat × Backward := s.read t.log

def next (t : Fse) (state : Nat) (s : Backward) : Nat × Backward :=
  let c := t.cell state
  (c.base + s.peek c.bits, s.skip c.bits)

end Fse

end Sluice.Entropy
