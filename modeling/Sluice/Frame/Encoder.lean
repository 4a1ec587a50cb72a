import Sluice.Codec
import Sluice.Frame.Block
import Sluice.Frame.Setting
import Sluice.Hash.Xxh64

namespace Sluice.Frame

structure Settings where
  level : Int := defaultLevel.toInt
  windowLog : Nat := 0
  longDistance : Bool := false
  contentSize : Bool := true
  checksum : Bool := false

structure Layout where
  pledged : Option Nat
  checksum : Bool
  opening : ByteArray
  /-- Content of a block is at most this long. -/
  block : Nat
  buffer : Nat

/-- The window logs of levels 0 to 22 for content that is long or of unknown length. -/
def levelWindows : Array Nat := #[19, 19, 20, 21, 21, 21, 21, 21, 21, 22, 22, 22, 22, 22, 22, 22,
  22, 23, 23, 23, 25, 26, 27]

def levelWindow (level : Int) (pledged : Option Nat) : Nat :=
  let long := (levelWindows[level.toNat]?).getD 27
  match pledged with
  | none => long
  | some n =>
    if n ≤ 16 * 1024 then 14
    else if n ≤ 128 * 1024 then 17
    else if n ≤ 256 * 1024 then 18
    else long

def coveringLog (n : Nat) : Nat := if n < 64 then 6 else Nat.log2 (n - 1) + 1

def longWindow : Nat := 27

namespace Settings

/-- The window log of a frame: no larger than the content asks for, and at least the minimum. -/
def windowLogFor (s : Settings) (pledged : Option Nat) : Nat :=
  let w :=
    if s.windowLog ≠ 0 then s.windowLog
    else if s.longDistance then longWindow
    else levelWindow s.level pledged
  max minWindowLog (pledged.elim w fun n => min w (coveringLog n))

def sizeCode (n : Nat) : Nat :=
  if n < 256 then 0 else if n < 65536 + 256 then 1 else if n < UInt32.size - 1 then 2 else 3

def sizeField (d : Descriptor) (n : Nat) : ByteArray :=
  numberBytes d.sizeWidth (if d.sizeCode = 1 then n - 256 else n)

def opening (s : Settings) (window : Nat) (pledged : Option Nat) : ByteArray :=
  let known := if s.contentSize then pledged else none
  let d : Descriptor :=
    { dictionaryCode := 0, checksum := s.checksum, reserved := false
      single := known.any (· ≤ 1 <<< window), sizeCode := known.elim 0 sizeCode }
  let windowField := if d.single then .empty else numberBytes 1 ((window - minWindowLog) * 8)
  (numberBytes 4 magic).push d.toByte ++ windowField ++ known.elim .empty (sizeField d)

def layout (s : Settings) (pledged : Option Nat) : Layout :=
  let w := s.windowLogFor pledged
  let window := max 1 (pledged.elim (1 <<< w) (min (1 <<< w)))
  let block := min blockLimit window
  { pledged, block, buffer := window + block
    checksum := s.checksum, opening := s.opening w pledged }

end Settings

inductive Encoder.Stage
  | start
  | load
  | flush
  deriving DecidableEq, Repr

structure Encoder where
  settings : Settings := {}
  stage : Encoder.Stage := .start
  layout : Layout := ⟨none, false, .empty, 1, 2⟩
  content : ByteArray := .empty
  opened : Bool := false
  held : ByteArray := .empty
  /-- How far the block buffer is filled, and up to where the block goes. -/
  filled : Nat := 0
  target : Nat := 0
  queue : ByteArray := .empty
  ended : Bool := false
  failed : Option Word := none

namespace Encoder

/-- Room that is enough for a chunk of `n` bytes whatever it holds. -/
def roomFor (n : Nat) : Nat := n + n / 256 + (131072 - n) / 2048

def isUniform (b : ByteArray) : Bool := b.data.all (· = byteAt b 0)

def minCompressed : Nat := 7

/-- One block: a run if it is uniform, long enough and not the frame's first, else raw. -/
def blockBytes (b : ByteArray) (first last : Bool) : ByteArray :=
  if !first && minCompressed ≤ b.size && isUniform b then
    (BlockHeader.bytes ⟨last, .rle, b.size⟩).push (byteAt b 0)
  else BlockHeader.bytes ⟨last, .raw, b.size⟩ ++ b

/-- A chunk cut into blocks; the last chunk ends with a last block, an empty one if need be. -/
def blocks (size : Nat) (b : ByteArray) (first last : Bool) : ByteArray :=
  let n := (b.size + size - 1) / size
  let cut := (List.range n).foldl (fun acc i => acc ++ blockBytes
    (b.extract (i * size) (i * size + size)) (first && i = 0) (last && i + 1 = n)) .empty
  if last && n = 0 then cut ++ BlockHeader.bytes ⟨true, .raw, 0⟩ else cut

/-- Emit a chunk of content. It must not exceed the content size that was pledged, nor fall short
of it at the end. -/
def chunk (e : Encoder) (b : ByteArray) (last : Bool) : Except ErrorNumber (ByteArray × Encoder) :=
  let l := e.layout
  let content := e.content ++ b
  if l.pledged.any fun n => n < content.size || (last && content.size < n) then
    .error .inputSizeWrong
  else
    let opening := if e.opened then .empty else l.opening
    let checksum := if last && l.checksum then
      numberBytes 4 ((Hash.Xxh64.hash content).toNat % UInt32.size) else .empty
    .ok (opening ++ blocks l.block b e.content.isEmpty last ++ checksum,
      { e with content, opened := true })

structure Flow where
  encoder : Encoder
  pos : Nat
  room : Nat
  out : ByteArray

inductive Move
  | again (flow : Flow)
  | stop (flow : Flow)

def Flow.emit (f : Flow) (b : ByteArray) : Flow :=
  { f with out := f.out ++ b, room := f.room - b.size }

/-- Open a frame. Only a step that also ends it tells the content size. -/
def openFrame (e : Encoder) (input : ByteArray) (mode : EndMode) : Encoder :=
  let layout := e.settings.layout (if mode = .finish then some input.size else none)
  { e with
    stage := .load, layout, content := .empty, opened := false, held := .empty, filled := 0
    target := layout.block + if layout.pledged = some layout.block then 1 else 0
    queue := .empty, ended := false }

/-- The buffer after a block: the next block goes behind it, or to the start if it would not fit. -/
def advance (e : Encoder) : Encoder :=
  let target := e.filled + e.layout.block
  if e.layout.buffer < target then { e with held := .empty, filled := 0, target := e.layout.block }
  else { e with held := .empty, target }

def closeFrame (e : Encoder) : Encoder :=
  { e with stage := .start, queue := .empty, ended := false }

def emitBlock (f : Flow) (last : Bool) : Except ErrorNumber Move := do
  let e := f.encoder
  let direct := roomFor e.held.size ≤ f.room
  let (bytes, e) ← e.chunk e.held last
  let e := e.advance
  if direct then
    let f := f.emit bytes
    if last then return .stop { f with encoder := e.closeFrame }
    else return .again { f with encoder := e }
  else return .again { f with encoder := { e with stage := .flush, queue := bytes, ended := last } }

def turnLoad (input : ByteArray) (mode : EndMode) (f : Flow) : Except ErrorNumber Move := do
  let e := f.encoder
  let rest := input.size - f.pos
  if mode = .finish && roomFor rest ≤ f.room && e.filled = 0 then
    let (bytes, e) ← e.chunk (dropBytes input f.pos) true
    return .stop { f.emit bytes with encoder := e.closeFrame, pos := input.size }
  else
    let n := min (e.target - e.filled) rest
    let e := { e with
      held := e.held ++ input.extract f.pos (f.pos + n), filled := e.filled + n }
    let f := { f with encoder := e, pos := f.pos + n }
    match mode with
    | .more => if e.filled < e.target then return .stop f else emitBlock f false
    | .flush => if e.held.isEmpty then return .stop f else emitBlock f false
    | .finish => emitBlock f (f.pos = input.size)

def turnFlush (f : Flow) : Move :=
  let e := f.encoder
  let n := min e.queue.size f.room
  let f := f.emit (e.queue.extract 0 n)
  if n < e.queue.size then .stop { f with encoder := { e with queue := dropBytes e.queue n } }
  else if e.ended then .stop { f with encoder := e.closeFrame }
  else .again { f with encoder := { e with stage := .load, queue := .empty } }

def turn (input : ByteArray) (mode : EndMode) (f : Flow) : Except ErrorNumber Move :=
  match f.encoder.stage with
  | .start => .ok (.again { f with encoder := f.encoder.openFrame input mode })
  | .load => turnLoad input mode f
  | .flush => .ok (turnFlush f)

def stepFrom (input : ByteArray) (mode : EndMode) :
    (fuel : Nat) → Flow → Except ErrorNumber Flow
  | 0, f => .ok f
  | fuel + 1, f =>
    match turn input mode f with
    | .error e => .error e
    | .ok (.again f) => stepFrom input mode fuel f
    | .ok (.stop f) => .ok f

def run (e : Encoder) (input : ByteArray) (room : Nat) (mode : EndMode) : Portion Encoder :=
  match e.failed with
  | some code => ⟨code, e, 0, .empty⟩
  | none =>
    match stepFrom input mode (2 * input.size + 8) ⟨e, 0, room, .empty⟩ with
    | .error number =>
      ⟨number.code, { e with stage := .load, failed := some number.code }, 0, .empty⟩
    | .ok f => ⟨.ofNat f.encoder.queue.size, f.encoder, f.pos, f.out⟩

def put (e : Encoder) (s : Setting) : Word × Encoder :=
  let value := s.value.toInt
  let settings := e.settings
  let settings := match s.parameter with
    | .level =>
      let level := if value = 0 then defaultLevel.toInt else max (-131072) (min value 22)
      { settings with level }
    | .windowLog => { settings with windowLog := value.toNat }
    | .longDistance => { settings with longDistance := value ≠ 0 }
    | .contentSize => { settings with contentSize := value ≠ 0 }
    | .checksum => { settings with checksum := value ≠ 0 }
    | _ => settings
  let answer := if s.parameter = .level then settings.level else value
  (.ofNat answer.toNat, { e with settings })

/-- Set a parameter, unless a frame is open that it would change, or the value is out of bounds. -/
def set (e : Encoder) (s : Setting) : Word × Encoder :=
  let value := s.value.toInt
  if e.stage ≠ .start && !isLive s.parameter then (ErrorNumber.stageWrong.code, e)
  else if value ≠ 0 && (bounds s.parameter).any fun (low, high) => value < low || high < value then
    (ErrorNumber.parameterOutOfBound.code, e)
  else e.put s

def setParameter (e : Encoder) (id value : Int32) : Word × Encoder :=
  match Setting.ofRaw id value with
  | .error number => (number.code, e)
  | .ok s => e.set s

end Encoder

def compressor : Compressor Encoder := .ofSlices Encoder.setParameter Encoder.run

end Sluice.Frame
