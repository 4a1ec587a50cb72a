import Sluice.Step
import Sluice.Stream.Sink

namespace Sluice

structure CompressWriter (σ : Type) where
  sink : Sink
  session : σ
  staging : ByteArray
  /-- Bytes the codec has consumed; 64 bits hold the two counts below `2 ^ 64`. -/
  totalIn : Nat := 0
  /-- Bytes handed to the sink in full. -/
  totalOut : Nat := 0

namespace CompressWriter

variable {σ : Type}

def defaultOutputChunk : Nat := 128 * 1024 + 3 + 4 + 1

/-- A writer with a staging area of `outputChunk` bytes, at least one. -/
def create (sink : Sink) (session : σ) (outputChunk : Nat := defaultOutputChunk) :
    CompressWriter σ :=
  { sink, session, staging := ⟨Array.replicate (max outputChunk 1) 0⟩ }

structure Emission (σ : Type) where
  result : Except Failure Word
  input : InWindow
  writer : CompressWriter σ

def step (codec : Compressor σ) (w : CompressWriter σ) (input : InWindow) (mode : EndMode) :
    Logged (Emission σ) := do
  let output := OutWindow.whole w.staging
  let x ← (codec.step w.session input output mode).settle input output
  let p := x.report.progress
  let input := { input with pos := min (input.pos + p.consumed) input.src.size }
  -- The output goes out before the status is looked at.
  let (sent, sink) := w.sink.writeAll (x.output.dst.extract 0 p.produced)
  let w := { w with
    sink, session := x.state, staging := x.output.dst, totalIn := w.totalIn + p.consumed }
  match sent with
  | .error f => return ⟨.error f, input, w⟩
  | .ok () =>
    Logged.note (.emitted mode p)
    return ⟨x.report.status.toExcept.mapError Failure.ofFault, input,
      { w with totalOut := w.totalOut + p.produced }⟩

def feedTurn (codec : Compressor σ) :
    InWindow × CompressWriter σ →
      Logged (Turn (InWindow × CompressWriter σ) (Except Failure Unit × CompressWriter σ))
  | (input, w) =>
    if input.left = 0 then pure (.done (.ok (), w))
    else do
      let e ← w.step codec input .more
      match e.result with
      | .error f => return .done (.error f, e.writer)
      | .ok _ => return .again (e.input, e.writer)

def drainTurn (codec : Compressor σ) (mode : EndMode) (w : CompressWriter σ) :
    Logged (Turn (CompressWriter σ) (Except Failure Unit × CompressWriter σ)) := do
  let e ← w.step codec ⟨.empty, 0⟩ mode
  match e.result with
  | .error f => return .done (.error f, e.writer)
  | .ok hint => return if hint = 0 then .done (.ok (), e.writer) else .again e.writer

/-- Repeat `mode` without input until nothing is pending; `none` if that takes more than `budget`
steps. -/
def drain (codec : Compressor σ) (budget : Nat) (w : CompressWriter σ) (mode : EndMode) :
    Option (Logged (Except Failure Unit × CompressWriter σ)) :=
  Logged.repeatUntil (drainTurn codec mode) budget w

def write (codec : Compressor σ) (budget : Nat) (w : CompressWriter σ) (buf : ByteArray) :
    Option (Logged (Except Failure Nat × CompressWriter σ)) :=
  (Logged.repeatUntil (feedTurn codec) budget (⟨buf, 0⟩, w)).map
    (·.map fun (result, w) => (result.map fun () => buf.size, w))

def writeAllTurn (codec : Compressor σ) (budget : Nat) (buf : ByteArray) (w : CompressWriter σ) :
    Logged (Turn (CompressWriter σ) (Option (Except Failure Unit × CompressWriter σ))) :=
  match w.write codec budget buf with
  | none => pure (.done none)
  | some written => written.map fun (result, w) =>
    match result with
    | .ok _ => .done (some (.ok (), w))
    | .error f => if f.kind = .interrupted then .again w else .done (some (.error f, w))

/-- Write all of a buffer. An empty one asks for no write, a write takes all or fails, and an
interrupted write is repeated. -/
def writeAll (codec : Compressor σ) (budget : Nat) (w : CompressWriter σ) (buf : ByteArray) :
    Option (Logged (Except Failure Unit × CompressWriter σ)) :=
  if buf.isEmpty then some (pure (.ok (), w))
  else do
    let r ← Logged.repeatUntil (writeAllTurn codec budget buf) budget w
    let answer ← r.value
    return ⟨answer, r.events⟩

def flushSink (w : CompressWriter σ) : Except Failure Unit × CompressWriter σ :=
  let (result, sink) := w.sink.flush
  (result, { w with sink })

def flush (codec : Compressor σ) (budget : Nat) (w : CompressWriter σ) :
    Option (Logged (Except Failure Unit × CompressWriter σ)) :=
  (w.drain codec budget .flush).map (·.map fun
    | (.ok (), w) => w.flushSink
    | failed => failed)

/-- Close the frame and flush the sink. -/
def finish (codec : Compressor σ) (budget : Nat) (w : CompressWriter σ) :
    Option (Logged (Except Failure Unit × CompressWriter σ)) :=
  (w.drain codec budget .finish).map fun drained => do
    let (result, w) ← drained
    match result with
    | .error f => return (.error f, w)
    | .ok () =>
      let (flushed, w) := w.flushSink
      if flushed.isOk then Logged.note (.finished w.totalIn w.totalOut)
      return (flushed, w)

end CompressWriter

end Sluice
