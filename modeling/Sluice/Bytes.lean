namespace Sluice

def byteAt (b : ByteArray) (i : Nat) : UInt8 := if h : i < b.size then b[i] else 0

def lane32 (b : ByteArray) (i : Nat) : UInt64 :=
  (byteAt b i).toUInt64 ||| (byteAt b (i + 1)).toUInt64 <<< 8
    ||| (byteAt b (i + 2)).toUInt64 <<< 16 ||| (byteAt b (i + 3)).toUInt64 <<< 24

def lane64 (b : ByteArray) (i : Nat) : UInt64 := lane32 b i ||| lane32 b (i + 4) <<< 32

/-- The number in `width` bytes from an offset on, at most eight of them. -/
def numberAt (b : ByteArray) (i width : Nat) : Nat := (lane64 b i).toNat % (1 <<< (8 * width))

def numberBytes (width n : Nat) : ByteArray :=
  (List.range width).foldl (fun acc i => acc.push (.ofNat (n >>> (8 * i)))) .empty

def dropBytes (b : ByteArray) (i : Nat) : ByteArray := b.extract i b.size

def pushCopies (b : ByteArray) (x : UInt8) : Nat → ByteArray
  | 0 => b
  | n + 1 => pushCopies (b.push x) x n

end Sluice
