namespace Sluice.Hash

def rotate (x : UInt64) (n : UInt64) : UInt64 := (x <<< n) ||| (x >>> (64 - n))

def reverseBytes (x : UInt64) : UInt64 :=
  (List.range 8).foldl (fun acc i => (acc <<< 8) ||| ((x >>> (8 * i.toUInt64)) &&& 0xff)) 0

/-- Low word of the product, xor its high word. -/
def foldedProduct (a b : UInt64) : UInt64 :=
  let low (x : UInt64) := x &&& 0xffffffff
  let high (x : UInt64) := x >>> 32
  let ll := low a * low b
  let hl := high a * low b
  let lh := low a * high b
  let hh := high a * high b
  let cross := high ll + low hl + lh
  ((cross <<< 32) ||| low ll) ^^^ (high hl + high cross + hh)

def prime1 : UInt64 := 0x9e3779b185ebca87
def prime2 : UInt64 := 0xc2b2ae3d27d4eb4f
def prime3 : UInt64 := 0x165667b19e3779f9
def prime4 : UInt64 := 0x85ebca77c2b2ae63
def prime5 : UInt64 := 0x27d4eb2f165667c5

def avalanche (h : UInt64) : UInt64 :=
  let h := (h ^^^ (h >>> 33)) * prime2
  let h := (h ^^^ (h >>> 29)) * prime3
  h ^^^ (h >>> 32)

end Sluice.Hash
