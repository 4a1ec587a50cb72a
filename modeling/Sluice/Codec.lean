import Sluice.Cursor

namespace Sluice

structure Answer (σ : Type) (size : Nat) where
  code : Word
  state : σ
  inPos : Nat
  output : OutWindow size

structure Compressor (σ : Type) where
  /-- Set a raw parameter; validation belongs to the codec. -/
  setParameter : σ → (id value : Int32) → Word × σ
  step : {size : Nat} → σ → InWindow → OutWindow size → EndMode → Answer σ size

/-- Decompression takes neither parameters nor a mode: the frame header says everything. -/
structure Decompressor (σ : Type) where
  step : {size : Nat} → σ → InWindow → OutWindow size → Answer σ size

/-- A step's answer when the codec sees no more than the unread bytes and the room. -/
structure Portion (σ : Type) where
  code : Word
  state : σ
  taken : Nat
  given : ByteArray

def Portion.over {σ : Type} {size : Nat} (p : Portion σ) (input : InWindow)
    (output : OutWindow size) : Answer σ size :=
  ⟨p.code, p.state, input.pos + p.taken, output.fill p.given⟩

def Compressor.ofSlices {σ : Type} (setParameter : σ → (id value : Int32) → Word × σ)
    (run : σ → ByteArray → (room : Nat) → EndMode → Portion σ) : Compressor σ where
  setParameter
  step s input output mode := (run s input.unread output.room mode).over input output

def Decompressor.ofSlices {σ : Type} (run : σ → ByteArray → (room : Nat) → Portion σ) :
    Decompressor σ where
  step s input output := (run s input.unread output.room).over input output

/-- Bytes moved by one step, never cumulative. -/
structure Progress where
  consumed : Nat
  produced : Nat
  deriving DecidableEq, Repr

def Progress.zero : Progress := ⟨0, 0⟩

structure Report where
  status : Status
  progress : Progress
  deriving DecidableEq, Repr

namespace Report

def code (r : Report) : Word := r.status.code

def accessFailure : Report := ⟨.bufferAccessFailure, .zero⟩

end Report

end Sluice
