import Sluice.Session.Table
import Sluice.Step

namespace Sluice

structure DirectedHandle (direction : Direction) where
  handle : Handle
  deriving DecidableEq, Repr

abbrev CompressorHandle := DirectedHandle .compress

abbrev DecompressorHandle := DirectedHandle .decompress

structure Engine (σ τ : Type) where
  compressors : SessionTable σ := {}
  decompressors : SessionTable τ := {}

namespace SessionTable

variable {α β : Type}

def stale (h : Handle) : Logged Fault := do
  Logged.note (.stale h)
  return .staleHandle

def openSession (t : SessionTable α) (direction : Direction) :
    Option α → Logged (Option (DirectedHandle direction) × SessionTable α)
  | none => do
    Logged.note (.noContext direction)
    return (none, t)
  | some session => do
    let (h, t) := t.insert session
    Logged.note (.opened direction h)
    return (some ⟨h⟩, t)

/-- Run an operation on the session behind a handle. If there is none, no codec is reached. -/
def withSession (t : SessionTable α) (h : Handle) (run : Entry α → Logged (β × Entry α)) :
    Logged (Except Fault β × SessionTable α) :=
  match t.get? h with
  | none => do
    let fault ← stale h
    return (.error fault, t)
  | some entry => do
    let (answer, entry) ← run entry
    return (.ok answer, t.set h entry)

/-- Run one step on the session behind a handle and leave its progress there. -/
def drive (t : SessionTable α) (h : Handle) (run : α → Logged (Stepped α)) :
    Logged (Except Fault (Report × Cursor) × SessionTable α) :=
  t.withSession h fun entry => do
    let stepped ← run entry.session
    return ((stepped.report, stepped.output), ⟨stepped.state, stepped.report.progress⟩)

def progress (t : SessionTable α) (h : Handle) : Except Fault Progress :=
  match t.get? h with
  | none => .error .staleHandle
  | some entry => .ok entry.progress

def closeSession (t : SessionTable α) (direction : Direction) (h : Handle) :
    Logged (Except Fault Unit × SessionTable α) :=
  match t.remove h with
  | none => do
    let fault ← stale h
    return (.error fault, t)
  | some (_, t) => do
    Logged.note (.closed direction h)
    return (.ok (), t)

end SessionTable

namespace Engine

variable {σ τ : Type}

/-- Open a compression session on a fresh codec state, `none` if there was no memory for one. -/
def openCompressor (e : Engine σ τ) (fresh : Option σ) :
    Logged (Option CompressorHandle × Engine σ τ) := do
  let (h, compressors) ← e.compressors.openSession .compress fresh
  return (h, { e with compressors })

def openDecompressor (e : Engine σ τ) (fresh : Option τ) :
    Logged (Option DecompressorHandle × Engine σ τ) := do
  let (h, decompressors) ← e.decompressors.openSession .decompress fresh
  return (h, { e with decompressors })

def setParameter (codec : Compressor σ) (e : Engine σ τ) (h : CompressorHandle)
    (id value : Int32) : Logged (Except Fault Status × Engine σ τ) := do
  let (answer, compressors) ← e.compressors.withSession h.handle fun entry => do
    let (code, session) := codec.setParameter entry.session id value
    let status := Status.ofCode code
    if status.isError then Logged.note (.refused h.handle id value status)
    return (status, { entry with session })
  return (answer, { e with compressors })

def compress (codec : Compressor σ) (e : Engine σ τ) (h : CompressorHandle)
    (output input : Cursor) (mode : EndMode) :
    Logged (Except Fault (Report × Cursor) × Engine σ τ) := do
  let (answer, compressors) ← e.compressors.drive h.handle (codec.compress · output input mode)
  return (answer, { e with compressors })

def compressBounds (codec : Compressor σ) (e : Engine σ τ) (h : CompressorHandle)
    (output : ByteArray) (outStart outStop : Word) (input : ByteArray) (inStart inStop : Word)
    (mode : EndMode) : Logged (Except Fault (Report × Cursor) × Engine σ τ) :=
  e.compress codec h ⟨some output, outStart, outStop⟩ ⟨some input, inStart, inStop⟩ mode

def decompress (codec : Decompressor τ) (e : Engine σ τ) (h : DecompressorHandle)
    (output input : Cursor) : Logged (Except Fault (Report × Cursor) × Engine σ τ) := do
  let (answer, decompressors) ← e.decompressors.drive h.handle (codec.decompress · output input)
  return (answer, { e with decompressors })

def decompressBounds (codec : Decompressor τ) (e : Engine σ τ) (h : DecompressorHandle)
    (output : ByteArray) (outStart outStop : Word) (input : ByteArray) (inStart inStop : Word) :
    Logged (Except Fault (Report × Cursor) × Engine σ τ) :=
  e.decompress codec h ⟨some output, outStart, outStop⟩ ⟨some input, inStart, inStop⟩

def compressorProgress (e : Engine σ τ) (h : CompressorHandle) : Except Fault Progress :=
  e.compressors.progress h.handle

def decompressorProgress (e : Engine σ τ) (h : DecompressorHandle) : Except Fault Progress :=
  e.decompressors.progress h.handle

def closeCompressor (e : Engine σ τ) (h : CompressorHandle) :
    Logged (Except Fault Unit × Engine σ τ) := do
  let (answer, compressors) ← e.compressors.closeSession .compress h.handle
  return (answer, { e with compressors })

def closeDecompressor (e : Engine σ τ) (h : DecompressorHandle) :
    Logged (Except Fault Unit × Engine σ τ) := do
  let (answer, decompressors) ← e.decompressors.closeSession .decompress h.handle
  return (answer, { e with decompressors })

def openSessions (e : Engine σ τ) : Nat := e.compressors.size + e.decompressors.size

end Engine

end Sluice
