import Sluice.Journal

namespace Sluice

structure Exchange (σ : Type) (size : Nat) where
  report : Report
  state : σ
  output : OutWindow size

def Answer.settle {σ : Type} {size : Nat} (a : Answer σ size) (input : InWindow)
    (output : OutWindow size) : Logged (Exchange σ size) := do
  let progress : Progress := ⟨a.inPos - input.pos, a.output.pos - output.pos⟩
  let status := Status.ofCode a.code
  Logged.note (.step progress input.left output.room status)
  return ⟨⟨status, progress⟩, a.state, a.output⟩

/-- A step over two cursors: the report, the state, and the output cursor with the bytes
written to its region. -/
structure Stepped (σ : Type) where
  report : Report
  state : σ
  output : Cursor

/-- Resolve both cursors and run once, or not at all. The cursors keep their bounds. -/
def stepOver {σ : Type} (run : {size : Nat} → InWindow → OutWindow size → Answer σ size) (s : σ)
    (output input : Cursor) : Logged (Stepped σ) :=
  match input.readable, output.writable with
  | some i, some ⟨_, o⟩ => do
    let x ← (run i o).settle i o
    return ⟨x.report, x.state, output.commit x.output⟩
  | _, _ => do
    Logged.note (.accessFailure input output)
    return ⟨.accessFailure, s, output⟩

namespace Compressor

variable {σ : Type}

def compress (codec : Compressor σ) (s : σ) (output input : Cursor) (mode : EndMode) :
    Logged (Stepped σ) :=
  stepOver (fun i o => codec.step s i o mode) s output input

def compressBounds (codec : Compressor σ) (s : σ) (output : ByteArray) (outStart outStop : Word)
    (input : ByteArray) (inStart inStop : Word) (mode : EndMode) : Logged (Stepped σ) :=
  codec.compress s ⟨some output, outStart, outStop⟩ ⟨some input, inStart, inStop⟩ mode

end Compressor

namespace Decompressor

variable {σ : Type}

def decompress (codec : Decompressor σ) (s : σ) (output input : Cursor) : Logged (Stepped σ) :=
  stepOver (fun i o => codec.step s i o) s output input

def decompressBounds (codec : Decompressor σ) (s : σ) (output : ByteArray)
    (outStart outStop : Word) (input : ByteArray) (inStart inStop : Word) : Logged (Stepped σ) :=
  codec.decompress s ⟨some output, outStart, outStop⟩ ⟨some input, inStart, inStop⟩

end Decompressor

end Sluice
