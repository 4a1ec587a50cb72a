import Sluice.Codec
import Sluice.Frame.Block
import Sluice.Frame.Sequences
import Sluice.Hash.Xxh64

namespace Sluice.Frame

inductive Part
  | blockHeader
  | content (block : BlockHeader)
  | checksum
  | skipped
  | ended
  deriving DecidableEq, Repr

inductive Decoder.Stage
  | start
  | opening
  | read
  | load
  | flush
  deriving DecidableEq, Repr

structure Decoder where
  stage : Decoder.Stage := .start
  gathered : ByteArray := .empty
  header : Header := ⟨none, 0, 0, false⟩
  part : Part := .ended
  expected : Nat := 0
  loaded : ByteArray := .empty
  tables : Tables := {}
  content : ByteArray := .empty
  inSize : Nat := 0
  outSize : Nat := 0
  /-- Where the bytes not flushed stand in the output buffer; they are the end of the content. -/
  outStart : Nat := 0
  outEnd : Nat := 0
  /-- The last byte of the frame was given back until all output is flushed. -/
  hostage : Bool := false
  idle : Nat := 0
  /-- The first error, which all later steps repeat. -/
  failed : Option Word := none

def checkSize (h : Header) (content : ByteArray) : Except ErrorNumber Unit :=
  if h.contentSize.all (· = content.size) then .ok () else .error .corruption

def checksumOf (content : ByteArray) : Nat := (Hash.Xxh64.hash content).toNat % UInt32.size

/-- A block's bytes appended to the content, of which there may be `room` bytes more. -/
def decodeBlock (h : BlockHeader) (tables : Tables) (b content : ByteArray) (room : Nat) :
    Except ErrorNumber (Tables × ByteArray) :=
  match h.kind with
  | .raw => if room < b.size then .error .outputTooSmall else .ok (tables, content ++ b)
  | .rle =>
    if room < h.length then .error .outputTooSmall
    else .ok (tables, pushCopies content (byteAt b 0) h.length)
  | .compressed =>
    let size := content.size
    match decodeCompressed? tables b content with
    | none => .error .corruption
    | some (tables, content) =>
      if room < content.size - size then .error .outputTooSmall else .ok (tables, content)

namespace Whole

def decodeBlocks (h : Header) (b : ByteArray) (i room : Nat) (tables : Tables)
    (content : ByteArray) : Except ErrorNumber (ByteArray × Nat) :=
  match BlockHeader.at? b i with
  | .error e => .error e
  | .ok block =>
    let start := i + 3
    let next := start + block.stored
    if _ : b.size < next then .error .inputSizeWrong
    else if block.kind = .compressed && h.maxBlock < block.stored then .error .inputSizeWrong
    else
      match decodeBlock block tables (b.extract start next) content (room - content.size) with
      | .error e => .error e
      | .ok (tables, content) =>
        if block.last then .ok (content, next)
        else decodeBlocks h b next room tables content
termination_by b.size + 1 - i
decreasing_by omega

def decode (b : ByteArray) (room : Nat) : Except ErrorNumber ByteArray := do
  match ← scanOpening b with
  | .needs _ => .error .inputSizeWrong
  | .complete (.skippable _) _ => .ok .empty
  | .complete (.data h) size =>
    if h.dictionary ≠ 0 then .error .dictionaryWrong
    else
      let (content, stop) ← decodeBlocks h b size room {} .empty
      checkSize h content
      if h.checksum && numberAt b stop 4 ≠ checksumOf content then .error .checksumWrong
      else .ok content

end Whole

namespace Decoder

structure Flow where
  decoder : Decoder
  pos : Nat
  room : Nat
  out : ByteArray

inductive Move
  | again (flow : Flow)
  | stop (flow : Flow)
  | answer (hint : Nat) (flow : Flow)

def windowLimit : Nat := (1 <<< 27) + 1

def windowOf (h : Header) : Nat := max h.window (1 <<< minWindowLog)

/-- The output buffer a frame needs: a window and a block, or less if its content is shorter. -/
def neededOutput (h : Header) : Nat :=
  let ring := windowOf h + h.maxBlock + 64
  h.contentSize.elim ring (min ring)

/-- Buffers are replaced when one of them is too small, and kept otherwise. -/
def resize (d : Decoder) (needIn needOut : Nat) : Decoder :=
  if d.inSize < needIn || d.outSize < needOut then { d with inSize := needIn, outSize := needOut }
  else d

def begin (d : Decoder) (h : Header) (part : Part) (expected : Nat) : Except ErrorNumber Decoder :=
  if h.dictionary ≠ 0 then .error .dictionaryWrong
  else if windowLimit < windowOf h then .error .windowTooLarge
  else
    let d := { d with header := h, part, expected, stage := .read, tables := {}, content := .empty }
    .ok (d.resize (max h.maxBlock 4) (neededOutput h))

def skippedHeader (length : Nat) : Header := ⟨some length, 0, 0, false⟩

/-- Try to decode the frame at the start of the step's input at once. -/
def atOnce? (h : Header) (input : ByteArray) (f : Flow) : Option (Except ErrorNumber Flow) := do
  let size ← h.contentSize
  guard (size ≤ f.room)
  let stop ← (frameSize input).toOption
  return (Whole.decode (input.extract 0 stop) f.room).map fun content =>
    { decoder := { f.decoder with stage := .start, expected := 0 }
      pos := stop, room := f.room - content.size, out := f.out ++ content }

def turnOpening (input : ByteArray) (f : Flow) : Except ErrorNumber Move := do
  let d := f.decoder
  match ← scanOpening d.gathered with
  | .needs n =>
    let missing := n - d.gathered.size
    if input.size - f.pos < missing then
      let gathered := d.gathered ++ dropBytes input f.pos
      let _ ← scanOpening gathered
      return .answer (max 6 n - gathered.size + 3)
        { f with decoder := { d with gathered }, pos := input.size }
    else
      let gathered := d.gathered ++ input.extract f.pos (f.pos + missing)
      return .again { f with decoder := { d with gathered }, pos := f.pos + missing }
  | .complete (.skippable length) _ =>
    return .again { f with decoder := ← d.begin (skippedHeader length) .skipped length }
  | .complete (.data h) _ =>
    match atOnce? h input f with
    | some whole => return .stop (← whole)
    | none => return .again { f with decoder := ← d.begin h .blockHeader 3 }

def afterBlocks (d : Decoder) : Decoder :=
  if d.header.checksum then { d with part := .checksum, expected := 4 }
  else { d with part := .ended, expected := 0 }

def takeBlockHeader (d : Decoder) (b : ByteArray) : Except ErrorNumber Decoder := do
  let block ← BlockHeader.ofNumber (numberAt b 0 3)
  if d.header.maxBlock < block.stored then .error .corruption
  else if block.stored ≠ 0 then .ok { d with part := .content block, expected := block.stored }
  else if block.last then .ok d.afterBlocks
  else .ok { d with expected := 3 }

def takeContent (d : Decoder) (block : BlockHeader) (b : ByteArray) :
    Except ErrorNumber Decoder := do
  let size := d.content.size
  let (tables, content) ← decodeBlock block d.tables b d.content (d.outSize - d.outStart)
  let produced := content.size - size
  let d := { d with
    tables, content, outEnd := d.outStart + produced, expected := d.expected - b.size }
  if d.header.maxBlock < produced then .error .corruption
  else if d.expected ≠ 0 then .ok d
  else if block.last then
    checkSize d.header d.content
    .ok d.afterBlocks
  else .ok { d with part := .blockHeader, expected := 3 }

def take (d : Decoder) (b : ByteArray) : Except ErrorNumber Decoder :=
  match d.part with
  | .blockHeader => do return { ← d.takeBlockHeader b with stage := .read }
  | .content block => do
    let d ← d.takeContent block b
    return { d with stage := if d.outStart = d.outEnd then .read else .flush }
  | .checksum =>
    if numberAt b 0 4 ≠ checksumOf d.content then .error .checksumWrong
    else .ok { d with part := .ended, expected := 0, stage := .read }
  | .skipped => .ok { d with part := .ended, expected := 0, outEnd := d.outStart, stage := .flush }
  | .ended => .ok d

/-- How many bytes to decode next of those available; raw content is taken as it comes. -/
def wanted (d : Decoder) (available : Nat) : Nat :=
  match d.part with
  | .content block => if block.kind = .raw then max 1 (min d.expected available) else d.expected
  | _ => d.expected

def turnRead (input : ByteArray) (f : Flow) : Except ErrorNumber Move := do
  let d := f.decoder
  let available := input.size - f.pos
  let n := d.wanted available
  if n = 0 then return .stop { f with decoder := { d with stage := .start } }
  else if n ≤ available then
    let decoder ← d.take (input.extract f.pos (f.pos + n))
    return .again { f with decoder, pos := f.pos + n }
  else if available = 0 then return .stop f
  else return .again { f with decoder := { d with stage := .load } }

def turnLoad (input : ByteArray) (f : Flow) : Except ErrorNumber Move := do
  let d := f.decoder
  let stop := min input.size (f.pos + (d.expected - d.loaded.size))
  let loaded := d.loaded ++ input.extract f.pos stop
  let f := { f with pos := stop }
  if loaded.size < d.expected then return .stop { f with decoder := { d with loaded } }
  else return .again { f with decoder := ← { d with loaded := .empty }.take loaded }

/-- After a flush the output buffer is used from its start again if another block might not fit. -/
def rewind (d : Decoder) : Decoder :=
  if d.header.contentSize.all (d.outSize < ·) && d.outSize < d.outStart + d.header.maxBlock then
    { d with outStart := 0, outEnd := 0 }
  else d

def turnFlush (f : Flow) : Move :=
  let d := f.decoder
  let pending := d.outEnd - d.outStart
  let n := min pending f.room
  let start := d.content.size - pending
  let f := { f with room := f.room - n, out := f.out ++ d.content.extract start (start + n) }
  let d := { d with outStart := d.outStart + n }
  if n = pending then .again { f with decoder := { d.rewind with stage := .read } }
  else .stop { f with decoder := d }

def restart (d : Decoder) : Decoder :=
  { d with
    stage := .opening, gathered := .empty, loaded := .empty
    outStart := 0, outEnd := 0, hostage := false }

def turn (input : ByteArray) (f : Flow) : Except ErrorNumber Move :=
  match f.decoder.stage with
  | .start => .ok (.again { f with decoder := f.decoder.restart })
  | .opening => turnOpening input f
  | .read => turnRead input f
  | .load => turnLoad input f
  | .flush => .ok (turnFlush f)

def idleLimit : Nat := 16

/-- The hint at the end of a step. A frame whose output is not flushed gives back its last byte, so
that its end is seen only when all of it was put out. -/
def hint (inputSize : Nat) (f : Flow) : Nat × Flow :=
  let d := f.decoder
  if d.expected = 0 then
    if d.outStart = d.outEnd then
      if d.hostage then
        if inputSize ≤ f.pos then (1, { f with decoder := { d with stage := .read } })
        else (0, { f with pos := f.pos + 1 })
      else (0, f)
    else if d.hostage then (1, f)
    else (1, { f with pos := f.pos - 1, decoder := { d with hostage := true } })
  else
    let ahead := match d.part with
      | .content block => if block.last then 0 else 3
      | _ => 0
    (d.expected + ahead - d.loaded.size, f)

def settle (inputSize : Nat) (f : Flow) : Except ErrorNumber (Nat × Flow) :=
  let idle := if f.pos = 0 && f.out.isEmpty then f.decoder.idle + 1 else 0
  if idleLimit ≤ idle && f.room = 0 then .error .noProgressOutputFull
  else if idleLimit ≤ idle && inputSize = 0 then .error .noProgressInputEmpty
  else .ok (hint inputSize { f with decoder := { f.decoder with idle } })

def stepFrom (input : ByteArray) : (fuel : Nat) → Flow → Except ErrorNumber (Nat × Flow)
  | 0, f => settle input.size f
  | fuel + 1, f =>
    match turn input f with
    | .error e => .error e
    | .ok (.again f) => stepFrom input fuel f
    | .ok (.stop f) => settle input.size f
    | .ok (.answer hint f) => .ok (hint, f)

/-- One step. Between two bytes taken there are at most three turns that take none. -/
def run (d : Decoder) (input : ByteArray) (room : Nat) : Portion Decoder :=
  match d.failed with
  | some code => ⟨code, d, 0, .empty⟩
  | none =>
    match stepFrom input (4 * input.size + 8) ⟨d, 0, room, .empty⟩ with
    | .error e => ⟨e.code, { d with failed := some e.code }, 0, .empty⟩
    | .ok (hint, f) => ⟨.ofNat hint, f.decoder, f.pos, f.out⟩

end Decoder

def decompressor : Decompressor Decoder := .ofSlices Decoder.run

end Sluice.Frame
