import Sluice.Codec.Echo

namespace Sluice.Blocks

def lengthLimit : UInt8 := 128

/-- Content in blocks of up to 127 bytes, each after its length; a zero length ends a frame. -/
structure Packer where
  held : ByteArray := .empty
  queue : ByteArray := .empty
  ended : Bool := false

namespace Packer

def framed (block : ByteArray) : ByteArray := ByteArray.empty.push (.ofNat block.size) ++ block

/-- Queue all full blocks of `n` bytes. -/
def queueFull (n : Nat) (p : Packer) : Packer :=
  if _ : 0 < n ∧ n ≤ p.held.size then
    queueFull n { p with
      queue := p.queue ++ framed (p.held.extract 0 n), held := p.held.extract n p.held.size }
  else p
termination_by p.held.size
decreasing_by simp only [ByteArray.size_extract]; omega

def queueRest (p : Packer) : Packer :=
  if p.held.isEmpty then p else { p with queue := p.queue ++ framed p.held, held := .empty }

def queueEnd (p : Packer) : Packer :=
  if p.ended then p else { p with queue := p.queue.push 0, ended := true }

def absorb (n : Nat) (p : Packer) (input : ByteArray) : EndMode → Packer
  | .more => { p with held := p.held ++ input }.queueFull n
  | .flush => ({ p with held := p.held ++ input }.queueFull n).queueRest
  | .finish => ({ p with held := p.held ++ input }.queueFull n).queueRest.queueEnd

def emit (p : Packer) (taken room : Nat) : Portion Packer :=
  let n := min p.queue.size room
  let queue := p.queue.extract n p.queue.size
  ⟨.ofNat queue.size, { p with queue, ended := p.ended && !queue.isEmpty }, taken,
    p.queue.extract 0 n⟩

def run (n : Nat) (p : Packer) (input : ByteArray) (room : Nat) (mode : EndMode) : Portion Packer :=
  (p.absorb n input mode).emit input.size room

end Packer

/-- Read blocks from offset `pos` on, with `need` bytes of the current block outstanding and
`out` produced so far. -/
def unpack (input : ByteArray) (room need pos : Nat) (out : ByteArray) : Portion Nat :=
  let stop : Portion Nat := ⟨.ofNat (max need 1), need, pos, out⟩
  if h : pos < input.size then
    if need = 0 then
      let length := input[pos]
      if length = 0 then ⟨0, 0, pos + 1, out⟩
      else if lengthLimit ≤ length then ⟨ErrorNumber.corruption.code, 0, pos + 1, out⟩
      else unpack input room length.toNat (pos + 1) out
    else
      let n := min need (min (input.size - pos) (room - out.size))
      if moved : n = 0 then stop
      else unpack input room (need - n) (pos + n) (out ++ input.extract pos (pos + n))
  else stop
termination_by input.size - pos

/-- One decompression step; the state is the number of bytes outstanding of the current block. -/
def Unpacker.run (need : Nat) (input : ByteArray) (room : Nat) : Portion Nat :=
  unpack input room need 0 .empty

def compressor (n : Nat) : Compressor Packer := .ofSlices Echo.setParameter (Packer.run n)

def decompressor : Decompressor Nat := .ofSlices Unpacker.run

end Sluice.Blocks
