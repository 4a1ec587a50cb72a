import Sluice.Frame.Header

namespace Sluice.Frame

inductive BlockKind
  | raw
  | rle
  | compressed
  deriving DecidableEq, Repr

structure BlockHeader where
  last : Bool
  kind : BlockKind
  /-- Bytes of content for raw and run-length blocks, of the compressed form otherwise. -/
  length : Nat
  deriving DecidableEq, Repr

namespace BlockHeader

def stored (h : BlockHeader) : Nat := if h.kind = .rle then 1 else h.length

def ofNumber (n : Nat) : Except ErrorNumber BlockHeader :=
  let make (kind : BlockKind) : Except ErrorNumber BlockHeader := .ok ⟨n % 2 = 1, kind, n / 8⟩
  match n / 2 % 4 with
  | 0 => make .raw
  | 1 => make .rle
  | 2 => make .compressed
  | _ => .error .corruption

def toNumber (h : BlockHeader) : Nat :=
  let kind := match h.kind with
    | .raw => 0
    | .rle => 1
    | .compressed => 2
  h.last.toNat + 2 * kind + 8 * h.length

def bytes (h : BlockHeader) : ByteArray := numberBytes 3 h.toNumber

def at? (b : ByteArray) (i : Nat) : Except ErrorNumber BlockHeader :=
  if b.size < i + 3 then .error .inputSizeWrong else ofNumber (numberAt b i 3)

end BlockHeader

/-- The offset behind the last block, walking block headers from `i` on. -/
def blocksEnd (b : ByteArray) (i : Nat) : Except ErrorNumber Nat :=
  match BlockHeader.at? b i with
  | .error e => .error e
  | .ok h =>
    let next := i + 3 + h.stored
    if _ : b.size < next then .error .inputSizeWrong
    else if h.last then .ok next
    else blocksEnd b next
termination_by b.size + 1 - i
decreasing_by omega

def frameSize (b : ByteArray) : Except ErrorNumber Nat :=
  let inside (size : Nat) : Except ErrorNumber Nat :=
    if b.size < size then .error .inputSizeWrong else .ok size
  match scanOpening b with
  | .error e => .error e
  | .ok (.needs _) => .error .inputSizeWrong
  | .ok (.complete (.skippable length) size) => inside (size + length)
  | .ok (.complete (.data h) size) =>
    match blocksEnd b size with
    | .error e => .error e
    | .ok stop => inside (stop + if h.checksum then 4 else 0)

end Sluice.Frame
