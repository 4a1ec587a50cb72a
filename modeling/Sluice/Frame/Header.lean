import Sluice.Bytes
import Sluice.Status

namespace Sluice.Frame

def magic : Nat := 0xfd2fb528

/-- Skippable frames may carry any of sixteen magic numbers from this one on. -/
def skippableMagic : Nat := 0x184d2a50

def blockLimit : Nat := 128 * 1024

def minWindowLog : Nat := 10

def maxWindowLog : Nat := 31

structure Header where
  contentSize : Option Nat
  window : Nat
  dictionary : Nat
  checksum : Bool
  deriving DecidableEq, Repr

def Header.maxBlock (h : Header) : Nat := min h.window blockLimit

inductive Opening
  | data (header : Header)
  | skippable (length : Nat)
  deriving DecidableEq, Repr

/-- How reading an opening went, with the length of it: known in full, or the length it has as far
as the bytes tell. -/
inductive Opening.Scan
  | complete (opening : Opening) (size : Nat)
  | needs (size : Nat)

/-- The first four bytes, those that are missing taken from `fill`. -/
def magicOver (fill : Nat) (b : ByteArray) : Nat :=
  numberAt (b.extract 0 4 ++ dropBytes (numberBytes 4 fill) b.size) 0 4

def isSkippableMagic (n : Nat) : Bool := n / 16 = skippableMagic / 16

def canStart (b : ByteArray) : Bool :=
  b.isEmpty || magicOver magic b = magic || isSkippableMagic (magicOver skippableMagic b)

structure Descriptor where
  dictionaryCode : Nat
  checksum : Bool
  reserved : Bool
  single : Bool
  sizeCode : Nat

namespace Descriptor

def ofByte (b : UInt8) : Descriptor where
  dictionaryCode := b.toNat % 4
  checksum := b.toNat / 4 % 2 = 1
  reserved := b.toNat / 8 % 2 = 1
  single := b.toNat / 32 % 2 = 1
  sizeCode := b.toNat / 64

def toByte (d : Descriptor) : UInt8 :=
  .ofNat (d.dictionaryCode + d.checksum.toNat * 4 + d.reserved.toNat * 8 + d.single.toNat * 32
    + d.sizeCode * 64)

def windowWidth (d : Descriptor) : Nat := if d.single then 0 else 1

def dictionaryWidth (d : Descriptor) : Nat := if d.dictionaryCode = 3 then 4 else d.dictionaryCode

def sizeWidth (d : Descriptor) : Nat :=
  if d.sizeCode = 0 then d.single.toNat else 1 <<< d.sizeCode

def openingSize (d : Descriptor) : Nat :=
  5 + d.windowWidth + d.dictionaryWidth + d.sizeWidth

end Descriptor

/-- The content size in a field of `width` bytes; two bytes count from 256, and the largest number
of eight bytes means unknown. -/
def contentSizeAt (b : ByteArray) (i width : Nat) : Option Nat :=
  if width = 0 then none
  else if width = 2 then some (numberAt b i 2 + 256)
  else if numberAt b i width = UInt64.size - 1 then none
  else some (numberAt b i width)

def windowOfByte (b : UInt8) : Nat :=
  let base := 1 <<< (minWindowLog + b.toNat / 8)
  base + base / 8 * (b.toNat % 8)

def readHeader (b : ByteArray) (d : Descriptor) : Except ErrorNumber Header :=
  let window := byteAt b 5
  if d.reserved then .error .frameParameter
  else if !d.single && maxWindowLog < minWindowLog + window.toNat / 8 then .error .windowTooLarge
  else
    let dictionaryAt := 5 + d.windowWidth
    let sizeAt := dictionaryAt + d.dictionaryWidth
    let contentSize := contentSizeAt b sizeAt d.sizeWidth
    .ok { contentSize
          window := if d.single then contentSize.getD (UInt64.size - 1) else windowOfByte window
          dictionary := numberAt b dictionaryAt d.dictionaryWidth
          checksum := d.checksum }

def scanOpening (b : ByteArray) : Except ErrorNumber Opening.Scan :=
  if b.size < 5 then if canStart b then .ok (.needs 5) else .error .unknownFrame
  else if numberAt b 0 4 = magic then
    let d := Descriptor.ofByte (byteAt b 4)
    if b.size < d.openingSize then .ok (.needs d.openingSize)
    else (readHeader b d).map fun h => .complete (.data h) d.openingSize
  else if isSkippableMagic (numberAt b 0 4) then
    if b.size < 8 then .ok (.needs 8)
    else .ok (.complete (.skippable (numberAt b 4 4)) 8)
  else .error .unknownFrame

end Sluice.Frame
