import Sluice.Frame.Literals

namespace Sluice.Frame

open Entropy

structure Tables where
  huffman : Option Huffman := none
  literalLengths : Option Fse := none
  offsets : Option Fse := none
  matchLengths : Option Fse := none
  recent : Nat × Nat × Nat := (1, 4, 8)

structure Sequence where
  literals : Nat
  /-- How far back the match starts, or which recent offset to take. -/
  offset : Nat
  length : Nat

namespace Sequence

/-- A kind of code: the counts of its usual table, the largest table and symbol, and what its
symbols stand for where that is not a power of two: a base, and how many bits to add. -/
structure Alphabet where
  usualLog : Nat
  usual : Array Int
  maxLog : Nat
  maxSymbol : Nat

def literalLengths : Alphabet where
  usualLog := 6
  usual := #[4, 3, 2, 2, 2, 2, 2, 2, 2, 2, 2, 2, 2, 1, 1, 1, 2, 2, 2, 2, 2, 2, 2, 2, 2, 3, 2, 1, 1,
    1, 1, 1, -1, -1, -1, -1]
  maxLog := 9
  maxSymbol := 35

def offsets : Alphabet where
  usualLog := 5
  usual := #[1, 1, 1, 1, 1, 1, 2, 2, 2, 1, 1, 1, 1, 1, 1, 1, 1, 1, 1, 1, 1, 1, 1, 1, -1, -1, -1,
    -1, -1]
  maxLog := 8
  maxSymbol := 31

def matchLengths : Alphabet where
  usualLog := 6
  usual := #[1, 4, 3, 2, 2, 2, 2, 2, 2, 1, 1, 1, 1, 1, 1, 1, 1, 1, 1, 1, 1, 1, 1, 1, 1, 1, 1, 1, 1,
    1, 1, 1, 1, 1, 1, 1, 1, 1, 1, 1, 1, 1, 1, 1, 1, 1, -1, -1, -1, -1, -1, -1, -1]
  maxLog := 9
  maxSymbol := 52

def literalBits : Array Nat := #[1, 1, 1, 1, 2, 2, 3, 3, 4, 6, 7, 8, 9, 10, 11, 12, 13, 14, 15, 16]

def matchBits : Array Nat := #[1, 1, 1, 1, 2, 2, 3, 3, 4, 4, 5, 7, 8, 9, 10, 11, 12, 13, 14, 15,
  16]

/-- Codes below `plain` stand for themselves; a later one starts where the one before ends. The
answer is the base of a code and how many bits it adds. -/
def codeRange (plain : Nat) (bits : Array Nat) (code : Nat) : Nat × Nat :=
  if code < plain then (code, 0)
  else
    let before := (bits.extract 0 (code - plain)).map (1 <<< ·)
    (plain + before.foldl (· + ·) 0, (bits[code - plain]?).getD 0)

def ranges (plain : Nat) (bits : Array Nat) : Array (Nat × Nat) :=
  (Array.range (plain + bits.size)).map (codeRange plain bits)

def literalRanges : Array (Nat × Nat) := ranges 16 literalBits

def matchRanges : Array (Nat × Nat) := ranges 32 matchBits

def readTable? (a : Alphabet) (previous : Option Fse) (b : ByteArray) (offset mode : Nat) :
    Option (Fse × Nat) :=
  match mode with
  | 0 => some (Fse.ofCounts a.usualLog a.usual, offset)
  | 1 => if offset < b.size then some (Fse.constant (byteAt b offset).toNat, offset + 1) else none
  | 2 => Fse.read? b offset a.maxLog a.maxSymbol
  | _ => previous.map fun t => (t, offset)

structure Codes where
  literalLengths : Fse
  offsets : Fse
  matchLengths : Fse

structure States where
  literalLength : Nat
  offset : Nat
  matchLength : Nat

def readRange (ranges : Array (Nat × Nat)) (code : Nat) (s : Backward) : Nat × Backward :=
  let (base, bits) := (ranges[code]?).getD (0, 0)
  (base + s.peek bits, s.skip bits)

def read (c : Codes) (x : States) (s : Backward) : Sequence × Backward :=
  let offsetCode := (c.offsets.cell x.offset).symbol
  let offset := (1 <<< offsetCode) + s.peek offsetCode
  let s := s.skip offsetCode
  let (length, s) := readRange matchRanges (c.matchLengths.cell x.matchLength).symbol s
  let (literals, s) := readRange literalRanges (c.literalLengths.cell x.literalLength).symbol s
  (⟨literals, offset, length + 3⟩, s)

def States.next (c : Codes) (x : States) (s : Backward) : States × Backward :=
  let (literalLength, s) := c.literalLengths.next x.literalLength s
  let (matchLength, s) := c.matchLengths.next x.matchLength s
  let (offset, s) := c.offsets.next x.offset s
  (⟨literalLength, offset, matchLength⟩, s)

/-- Read `n` sequences; no states follow the last one. -/
def readMany (c : Codes) : (n : Nat) → States → Backward → Array Sequence →
    Backward × Array Sequence
  | 0, _, s, acc => (s, acc)
  | 1, x, s, acc =>
    let (q, s) := read c x s
    (s, acc.push q)
  | n + 2, x, s, acc =>
    let (q, s) := read c x s
    let (x, s) := x.next c s
    readMany c (n + 1) x s (acc.push q)

def readStream? (c : Codes) (stream : ByteArray) (n : Nat) : Option (Array Sequence) := do
  let s ← Backward.ofBytes? stream
  let (literalLength, s) := c.literalLengths.start s
  let (offset, s) := c.offsets.start s
  let (matchLength, s) := c.matchLengths.start s
  let (s, sequences) := readMany c n ⟨literalLength, offset, matchLength⟩ s #[]
  guard (s.left = 0)
  return sequences

def count? (b : ByteArray) (offset : Nat) : Option (Nat × Nat) :=
  let head := (byteAt b offset).toNat
  let (n, stop) :=
    if head < 128 then (head, offset + 1)
    else if head < 255 then ((head - 128) * 256 + (byteAt b (offset + 1)).toNat, offset + 2)
    else (numberAt b (offset + 1) 2 + 0x7f00, offset + 3)
  if stop ≤ b.size then some (n, stop) else none

def readSection? (tables : Tables) (b : ByteArray) (offset : Nat) :
    Option (Array Sequence × Tables) := do
  let (n, offset) ← count? b offset
  if n = 0 then
    guard (offset = b.size)
    return (#[], tables)
  guard (offset < b.size)
  let modes := (byteAt b offset).toNat
  guard (modes % 4 = 0)
  let (ll, offset) ← readTable? literalLengths tables.literalLengths b (offset + 1) (modes / 64)
  let (of, offset) ← readTable? offsets tables.offsets b offset (modes / 16 % 4)
  let (ml, offset) ← readTable? matchLengths tables.matchLengths b offset (modes / 4 % 4)
  let sequences ← readStream? ⟨ll, of, ml⟩ (dropBytes b offset) n
  return (sequences, { tables with literalLengths := ll, offsets := of, matchLengths := ml })

/-- The offset a sequence means, and the recent offsets after it. Without literals before it, a
sequence never repeats the latest offset, so the names move on by one. -/
def resolve (recent : Nat × Nat × Nat) (q : Sequence) : Nat × (Nat × Nat × Nat) :=
  let (a, b, c) := recent
  if 3 < q.offset then (q.offset - 3, (q.offset - 3, a, b))
  else match q.offset + if q.literals = 0 then 1 else 0 with
    | 1 => (a, recent)
    | 2 => (b, (b, a, c))
    | 3 => (c, (c, a, b))
    | _ => (a - 1, (a - 1, a, b))

/-- Copy `n` bytes that stand `offset` back; the copy may run into itself. -/
def copyBack (offset : Nat) : (n : Nat) → ByteArray → ByteArray
  | 0, content => content
  | n + 1, content => copyBack offset n (content.push (byteAt content (content.size - offset)))

def execute? (literals : ByteArray) (q : Sequence) (recent : Nat × Nat × Nat) (position : Nat)
    (content : ByteArray) : Option ((Nat × Nat × Nat) × Nat × ByteArray) := do
  guard (position + q.literals ≤ literals.size)
  let content := content ++ literals.extract position (position + q.literals)
  let (offset, recent) := resolve recent q
  guard (1 ≤ offset && offset ≤ content.size)
  return (recent, position + q.literals, copyBack offset q.length content)

def executeAll? (literals : ByteArray) :
    List Sequence → Nat × Nat × Nat → Nat → ByteArray → Option ((Nat × Nat × Nat) × ByteArray)
  | [], recent, position, content => some (recent, content ++ dropBytes literals position)
  | q :: rest, recent, position, content =>
    match execute? literals q recent position content with
    | none => none
    | some (recent, position, content) => executeAll? literals rest recent position content

end Sequence

def decodeCompressed? (tables : Tables) (b content : ByteArray) : Option (Tables × ByteArray) := do
  let literals ← Literals.read? tables.huffman b
  let (sequences, tables) ← Sequence.readSection? tables b literals.stop
  let (recent, content) ←
    Sequence.executeAll? literals.bytes sequences.toList tables.recent 0 content
  return ({ tables with huffman := literals.huffman, recent }, content)

end Sluice.Frame
