import Sluice.Entropy.Huffman

namespace Sluice.Frame

open Entropy

structure Literals where
  bytes : ByteArray
  huffman : Option Huffman
  stop : Nat

namespace Literals

def slice? (b : ByteArray) (start stop : Nat) : Option ByteArray :=
  if start ≤ stop && stop ≤ b.size then some (b.extract start stop) else none

def fourStreams? (t : Huffman) (b : ByteArray) (start stop size : Nat) : Option ByteArray := do
  let quarter := (size + 3) / 4
  let first := start + 6
  let second := first + numberAt b start 2
  let third := second + numberAt b (start + 2) 2
  let fourth := third + numberAt b (start + 4) 2
  guard (3 * quarter ≤ size)
  let out ← t.decode? (← slice? b first second) quarter .empty
  let out ← t.decode? (← slice? b second third) quarter out
  let out ← t.decode? (← slice? b third fourth) quarter out
  t.decode? (← slice? b fourth stop) (size - 3 * quarter) out

/-- A section with a Huffman code: `format` says how wide the two lengths of its header are, and
that there are four streams unless it is 0. -/
def readCoded? (previous : Option Huffman) (b : ByteArray) (format : Nat) (described : Bool) :
    Option Literals := do
  let width := if format ≤ 1 then 10 else if format = 2 then 14 else 18
  let size := bitsAt b 4 width
  let coded := bitsAt b (4 + width) width
  let start := (4 + 2 * width) / 8
  let stop := start + coded
  guard (stop ≤ b.size)
  let (t, start) ← if described then Huffman.read? (b.extract 0 stop) start
    else previous.map fun t => (t, start)
  let bytes ← if format = 0 then t.decode? (← slice? b start stop) size .empty
    else fourStreams? t b start stop size
  return ⟨bytes, some t, stop⟩

def read? (previous : Option Huffman) (b : ByteArray) : Option Literals := do
  let head := (byteAt b 0).toNat
  let kind := head % 4
  let format := head / 4 % 4
  if kind < 2 then
    let (size, start) :=
      if format % 2 = 0 then (head / 8, 1)
      else if format = 1 then (numberAt b 0 2 / 16, 2)
      else (numberAt b 0 3 / 16, 3)
    if kind = 0 then return ⟨← slice? b start (start + size), previous, start + size⟩
    else
      guard (start < b.size)
      return ⟨pushCopies .empty (byteAt b start) size, previous, start + 1⟩
  else readCoded? previous b format (kind = 2)

end Literals

end Sluice.Frame
