import Sluice.Bytes
import Sluice.Hash.Mixing

namespace Sluice.Hash.Xxh3

def secret : ByteArray := ⟨#[
  0xb8, 0xfe, 0x6c, 0x39, 0x23, 0xa4, 0x4b, 0xbe, 0x7c, 0x01, 0x81, 0x2c, 0xf7, 0x21, 0xad, 0x1c,
  0xde, 0xd4, 0x6d, 0xe9, 0x83, 0x90, 0x97, 0xdb, 0x72, 0x40, 0xa4, 0xa4, 0xb7, 0xb3, 0x67, 0x1f,
  0xcb, 0x79, 0xe6, 0x4e, 0xcc, 0xc0, 0xe5, 0x78, 0x82, 0x5a, 0xd0, 0x7d, 0xcc, 0xff, 0x72, 0x21,
  0xb8, 0x08, 0x46, 0x74, 0xf7, 0x43, 0x24, 0x8e, 0xe0, 0x35, 0x90, 0xe6, 0x81, 0x3a, 0x26, 0x4c,
  0x3c, 0x28, 0x52, 0xbb, 0x91, 0xc3, 0x00, 0xcb, 0x88, 0xd0, 0x65, 0x8b, 0x1b, 0x53, 0x2e, 0xa3,
  0x71, 0x64, 0x48, 0x97, 0xa2, 0x0d, 0xf9, 0x4e, 0x38, 0x19, 0xef, 0x46, 0xa9, 0xde, 0xac, 0xd8,
  0xa8, 0xfa, 0x76, 0x3f, 0xe3, 0x9c, 0x34, 0x3f, 0xf9, 0xdc, 0xbb, 0xc7, 0xc7, 0x0b, 0x4f, 0x1d,
  0x8a, 0x51, 0xe0, 0x4b, 0xcd, 0xb4, 0x59, 0x31, 0xc8, 0x9f, 0x7e, 0xc9, 0xd9, 0x78, 0x73, 0x64,
  0xea, 0xc5, 0xac, 0x83, 0x34, 0xd3, 0xeb, 0xc3, 0xc5, 0x81, 0xa0, 0xff, 0xfa, 0x13, 0x63, 0xeb,
  0x17, 0x0d, 0xdd, 0x51, 0xb7, 0xf0, 0xda, 0x49, 0xd3, 0x16, 0x55, 0x26, 0x29, 0xd4, 0x68, 0x9e,
  0x2b, 0x16, 0xbe, 0x58, 0x7d, 0x47, 0xa1, 0xfc, 0x8f, 0xf8, 0xb8, 0xd1, 0x7a, 0xd0, 0x31, 0xce,
  0x45, 0xcb, 0x3a, 0x8f, 0x95, 0x16, 0x04, 0x28, 0xaf, 0xd7, 0xfb, 0xca, 0xbb, 0x4b, 0x40, 0x7e]⟩

def key (i : Nat) : UInt64 := lane64 secret i

def primeLow1 : UInt64 := 0x9e3779b1
def primeLow2 : UInt64 := 0x85ebca77
def primeLow3 : UInt64 := 0xc2b2ae3d

def finish (h : UInt64) : UInt64 :=
  let h := (h ^^^ (h >>> 37)) * 0x165667919e3779f9
  h ^^^ (h >>> 32)

def mix (b : ByteArray) (i k : Nat) : UInt64 :=
  foldedProduct (lane64 b i ^^^ key k) (lane64 b (i + 8) ^^^ key (k + 8))

def tiny (b : ByteArray) : UInt64 :=
  let n := b.size
  if n = 0 then avalanche (key 56 ^^^ key 64)
  else
    let byte (i : Nat) := (byteAt b i).toUInt64
    let packed := byte 0 <<< 16 ||| byte (n / 2) <<< 24 ||| byte (n - 1) ||| n.toUInt64 <<< 8
    avalanche (packed ^^^ (lane32 secret 0 ^^^ lane32 secret 4))

def short (b : ByteArray) : UInt64 :=
  let n := b.size
  let h := (lane32 b (n - 4) + lane32 b 0 <<< 32) ^^^ (key 8 ^^^ key 16)
  let h := (h ^^^ rotate h 49 ^^^ rotate h 24) * 0x9fb21c651e98df25
  let h := (h ^^^ ((h >>> 35) + n.toUInt64)) * 0x9fb21c651e98df25
  h ^^^ (h >>> 28)

def medium (b : ByteArray) : UInt64 :=
  let n := b.size
  let low := lane64 b 0 ^^^ (key 24 ^^^ key 32)
  let high := lane64 b (n - 8) ^^^ (key 40 ^^^ key 48)
  finish (n.toUInt64 + reverseBytes low + high + foldedProduct low high)

/-- 17 to 128 bytes: pieces from both ends towards the middle. -/
def paired (b : ByteArray) : UInt64 :=
  let n := b.size
  finish <| (List.range ((n + 31) / 32)).foldl
    (fun acc i => acc + mix b (16 * i) (32 * i) + mix b (n - 16 * (i + 1)) (32 * i + 16))
    (n.toUInt64 * prime1)

def chained (b : ByteArray) : UInt64 :=
  let n := b.size
  let head := (List.range 8).foldl
    (fun acc i => acc + mix b (16 * i) (16 * i)) (n.toUInt64 * prime1)
  let rest := (List.range (n / 16 - 8)).foldl
    (fun acc i => acc + mix b (16 * (i + 8)) (16 * i + 3)) (finish head)
  finish (rest + mix b (n - 16) 119)

abbrev Accumulators := Vector UInt64 8

def Accumulators.start : Accumulators :=
  ⟨#[primeLow3, prime1, prime2, prime3, prime4, primeLow2, prime5, primeLow1], rfl⟩

namespace Accumulators

/-- Absorb the stripe at `i` with the secret at `k`; each word also goes to its neighbour. -/
def absorb (b : ByteArray) (i k : Nat) (acc : Accumulators) : Accumulators :=
  let word (lane : Nat) := lane64 b (i + 8 * lane)
  .ofFn fun lane =>
    let keyed : UInt64 := word lane ^^^ key (k + 8 * lane)
    let low : UInt64 := keyed &&& 0xffffffff
    acc.get lane + word (lane.val ^^^ 1) + low * (keyed >>> 32)

def scramble (acc : Accumulators) : Accumulators :=
  .ofFn fun lane =>
    let x : UInt64 := acc.get lane
    (x ^^^ (x >>> 47) ^^^ key (128 + 8 * lane)) * primeLow1

def stripes (b : ByteArray) : (n i k : Nat) → Accumulators → Accumulators
  | 0, _, _, acc => acc
  | n + 1, i, k, acc => stripes b n (i + 64) (k + 8) (acc.absorb b i k)

def blocks (b : ByteArray) : (n i : Nat) → Accumulators → Accumulators
  | 0, _, acc => acc
  | n + 1, i, acc => blocks b n (i + 1024) (stripes b 16 i 0 acc).scramble

def close (acc : Accumulators) (size : Nat) : UInt64 :=
  let pair (i : Nat) (a b : UInt64) :=
    foldedProduct (a ^^^ key (11 + 16 * i)) (b ^^^ key (19 + 16 * i))
  finish (size.toUInt64 * prime1 + pair 0 acc[0] acc[1] + pair 1 acc[2] acc[3]
    + pair 2 acc[4] acc[5] + pair 3 acc[6] acc[7])

end Accumulators

/-- More than 240 bytes. The last stripe always ends at the end of the input. -/
def long (b : ByteArray) : UInt64 :=
  let n := (b.size - 1) / 1024
  let acc := Accumulators.start.blocks b n 0
  let acc := acc.stripes b ((b.size - 1 - 1024 * n) / 64) (1024 * n) 0
  (acc.absorb b (b.size - 64) 121).close b.size

def hash (b : ByteArray) : UInt64 :=
  if b.size ≤ 3 then tiny b
  else if b.size ≤ 8 then short b
  else if b.size ≤ 16 then medium b
  else if b.size ≤ 128 then paired b
  else if b.size ≤ 240 then chained b
  else long b

end Sluice.Hash.Xxh3
