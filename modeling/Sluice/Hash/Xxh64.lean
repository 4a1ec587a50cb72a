import Sluice.Bytes
import Sluice.Hash.Mixing

namespace Sluice.Hash.Xxh64

def round (acc lane : UInt64) : UInt64 := rotate (acc + lane * prime2) 31 * prime1

structure Accumulators where
  a : UInt64 := prime1 + prime2
  b : UInt64 := prime2
  c : UInt64 := 0
  d : UInt64 := 0 - prime1

namespace Accumulators

def absorb (s : Accumulators) (bytes : ByteArray) (i : Nat) : Accumulators :=
  ⟨round s.a (lane64 bytes i), round s.b (lane64 bytes (i + 8)),
    round s.c (lane64 bytes (i + 16)), round s.d (lane64 bytes (i + 24))⟩

def merge (h lane : UInt64) : UInt64 := (h ^^^ round 0 lane) * prime1 + prime4

def close (s : Accumulators) : UInt64 :=
  let h := rotate s.a 1 + rotate s.b 7 + rotate s.c 12 + rotate s.d 18
  [s.a, s.b, s.c, s.d].foldl merge h

end Accumulators

def stripes (bytes : ByteArray) : (n i : Nat) → Accumulators → Accumulators
  | 0, _, s => s
  | n + 1, i, s => stripes bytes n (i + 32) (s.absorb bytes i)

/-- Absorb what follows the last whole stripe: words, a half word, bytes. -/
def tail (bytes : ByteArray) (i : Nat) (h : UInt64) : UInt64 :=
  let left := bytes.size - i
  if 8 ≤ left then
    tail bytes (i + 8) (rotate (h ^^^ round 0 (lane64 bytes i)) 27 * prime1 + prime4)
  else if 4 ≤ left then
    tail bytes (i + 4) (rotate (h ^^^ (lane32 bytes i * prime1)) 23 * prime2 + prime3)
  else if 1 ≤ left then
    tail bytes (i + 1) (rotate (h ^^^ ((byteAt bytes i).toUInt64 * prime5)) 11 * prime1)
  else h
termination_by bytes.size - i

def hash (bytes : ByteArray) : UInt64 :=
  let n := bytes.size / 32
  let h := if n = 0 then prime5 else (stripes bytes n 0 {}).close
  avalanche (tail bytes (32 * n) (h + .ofNat bytes.size))

end Sluice.Hash.Xxh64
