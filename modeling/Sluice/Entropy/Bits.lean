import Sluice.Bytes

namespace Sluice.Entropy

/-- The `n` bits from bit `offset` on, at most 56 of them; bits past the end are 0. -/
def bitsAt (b : ByteArray) (offset n : Nat) : Nat :=
  ((lane64 b (offset / 8) >>> (offset % 8).toUInt64) &&& ((1 <<< n.toUInt64) - 1)).toNat

/-- A stream read from its end; `left` bits are not read yet. Reading more gives zeros. -/
structure Backward where
  bytes : ByteArray
  left : Int

namespace Backward

def ofBytes? (bytes : ByteArray) : Option Backward :=
  let last := byteAt bytes (bytes.size - 1)
  if last = 0 then none else some ⟨bytes, 8 * (bytes.size - 1 : Nat) + Nat.log2 last.toNat⟩

def peek (s : Backward) (n : Nat) : Nat :=
  if (n : Int) ≤ s.left then bitsAt s.bytes (s.left.toNat - n) n
  else
    let rest := s.left.toNat
    bitsAt s.bytes 0 rest <<< (n - rest)

def skip (s : Backward) (n : Nat) : Backward := { s with left := s.left - n }

def read (s : Backward) (n : Nat) : Nat × Backward := (s.peek n, s.skip n)

end Backward

end Sluice.Entropy
