import Sluice.Entropy.Fse

namespace Sluice.Entropy

structure Huffman where
  log : Nat
  /-- For every next `log` bits the symbol they start with and how many of them it takes. -/
  cells : Array (UInt8 × Nat)

namespace Huffman

def maxLog : Nat := 11

def share (weight : Nat) : Nat := if weight = 0 then 0 else 1 <<< (weight - 1)

/-- The code with these weights and one more that fills the code space. Symbols of low weight come
first, in their own order where the weights are the same. -/
def ofWeights? (weights : Array Nat) : Option Huffman := do
  let total := (weights.map share).foldl (· + ·) 0
  guard (total ≠ 0)
  let log := Nat.log2 total + 1
  guard (log ≤ maxLog)
  let missing := (1 <<< log) - total
  guard (1 <<< Nat.log2 missing = missing)
  let weights := weights.push (Nat.log2 missing + 1)
  let ofWeight (w : Nat) := (List.range weights.size).filter fun s => (weights[s]?).getD 0 = w
  return ⟨log, (List.range log).foldl (fun cells i => (ofWeight (i + 1)).foldl
    (fun cells s => cells ++ Array.replicate (1 <<< i) (UInt8.ofNat s, log - i)) cells) #[]⟩

def readWeightsFrom (t : Fse) : (fuel state other : Nat) → Backward → Array Nat → Array Nat
  | 0, _, _, _, weights => weights
  | fuel + 1, state, other, s, weights =>
    let weights := weights.push (t.cell state).symbol
    let (state, s) := t.next state s
    if s.left < 0 then weights.push (t.cell other).symbol
    else readWeightsFrom t fuel other state s weights

def read? (b : ByteArray) (offset : Nat) : Option (Huffman × Nat) := do
  let head := (byteAt b offset).toNat
  let offset := offset + 1
  if 128 ≤ head then
    let n := head - 127
    let stop := offset + (n + 1) / 2
    guard (stop ≤ b.size)
    let weights := (Array.range n).map fun i =>
      let pair := (byteAt b (offset + i / 2)).toNat
      if i % 2 = 0 then pair / 16 else pair % 16
    return (← ofWeights? weights, stop)
  else
    let stop := offset + head
    guard (stop ≤ b.size)
    let (t, body) ← Fse.read? (b.extract 0 stop) offset 6 255
    let s ← Backward.ofBytes? (b.extract body stop)
    let (state, s) := t.start s
    let (other, s) := t.start s
    return (← ofWeights? (readWeightsFrom t 255 state other s #[]), stop)

def decodeFrom (t : Huffman) : (n : Nat) → Backward → ByteArray → Backward × ByteArray
  | 0, s, out => (s, out)
  | n + 1, s, out =>
    let (symbol, bits) := (t.cells[s.peek t.log]?).getD (0, 0)
    decodeFrom t n (s.skip bits) (out.push symbol)

def decode? (t : Huffman) (stream : ByteArray) (n : Nat) (out : ByteArray) : Option ByteArray := do
  let (s, out) := t.decodeFrom n (← Backward.ofBytes? stream) out
  guard (s.left = 0)
  return out

end Huffman

end Sluice.Entropy
