import Sluice.Command.Host
import Sluice.Frame.Session
import Sluice.Hash.Digest
import Sluice.Stream.Copy
import Sluice.Text.Number

namespace Sluice.Command

inductive Task
  | opening (input : Endpoint)
  | creating (output : Endpoint)
  | configuring
  | reading
  | compressing
  | closing
  | decompressing (input : Endpoint)
  | readingReference (reference : Endpoint)
  deriving DecidableEq, Repr

def Task.text : Task → String
  | opening input => s!"opening input file {input.quoted}"
  | creating output => s!"creating output file {output.quoted}"
  | configuring => "configuring compressor"
  | reading => "reading input"
  | compressing => "compressing"
  | closing => "closing frame"
  | decompressing input => s!"decompressing {input.quoted}"
  | readingReference reference => s!"reading original {reference.quoted}"

inductive Complaint
  | failed (task : Task) (cause : String)
  | mismatch (decoded reference : Digest)
  /-- The task does not come to an end. -/
  | endless (task : Task)

namespace Complaint

def describe (d : Digest) : String := s!"{Text.hex16 d.value} ({d.size} bytes)"

def lines : Complaint → List String
  | failed task cause => [s!"Error: {task.text}", "", "Caused by:", s!"    {cause}"]
  | mismatch decoded reference =>
    [s!"Error: mismatch: decoded {describe decoded}, original {describe reference}"]
  | endless task => [s!"Error: {task.text} does not come to an end"]

end Complaint

def entry (label value : String) : String :=
  "  " ++ label ++ "".pushn ' ' (12 - label.length) ++ ": " ++ value

def seconds (ns : Nat) : Float := ns.toFloat / 1e9

def pace (size elapsed : Nat) : List String :=
  [entry "throughput" (Text.rate (.ofNat size) (seconds elapsed)),
   entry "elapsed" (Text.fixed 3 elapsed 1000000000 ++ "s")]

variable {m : Type → Type} [Monad m]

abbrev Attempt (m : Type → Type) := ExceptT Complaint m

/-- Go on with a result, or complain that a task failed. -/
def expect {α : Type} (task : Task) : Except Failure α → Attempt m α
  | .ok a => pure a
  | .error f => throw (.failed task f.message)

def ofTransfer : TransferFault → Complaint
  | .source f => .failed .reading f.message
  | .writer f => .failed .compressing f.message

section

variable (host : Host m) (level : Severity)

def tell (lines : List String) : Attempt m Unit := lines.forM fun line => host.tell line

def note {α : Type} (x : Logged α) : Attempt m α := ExceptT.lift (host.journal level x)

def finite {α : Type} (task : Task) : Option (Logged α) → Attempt m α
  | some x => note host level x
  | none => throw (.endless task)

/-- Compress all of a source and close the frame. The writer keeps what it has passed on, whether
or not that succeeded. -/
def feed {σ : Type} (codec : Compressor σ) (source : Source) (w : CompressWriter σ) :
    Attempt m (Except Complaint Unit × CompressWriter σ) := do
  let (moved, w) ← finite host level .compressing (w.transfer codec host.patience source)
  match moved with
  | .error fault => return (.error (ofTransfer fault), w)
  | .ok () =>
    let (closed, w) ← finite host level .closing (w.finish codec host.patience)
    return (closed.mapError (.failed .closing ·.message), w)

def compressInto (input output : Endpoint) (options : Options) (chunk : Nat) :
    Attempt m Unit := do
  expect (.opening input) (← host.probe input)
  expect (.creating output) (← host.create output)
  let fresh ← note host level (Frame.writer { steady := UInt64.size } options)
  let w ← liftExcept (fresh.mapError (Complaint.failed .configuring ·.message))
  note host level (Logged.note (.compressing input.path output.path options))
  let start ← host.now
  let (result, w) ← feed host level Frame.compressor (← host.source input (max chunk 1)) w
  let compressed := w.sink.accepted
  let written ← host.write output compressed
  liftExcept result
  expect .closing written
  let elapsed := (← host.now) - start
  let shrunk :=
    if output = .standard then []
    else if compressed.isEmpty then [entry "compressed" (Text.sizeInUnits 0)]
    else [entry "compressed" (Text.sizeInUnits compressed.size),
      entry "ratio" (Text.ratio w.totalIn compressed.size ++ "x")]
  tell host <|
    [entry "level" (toString options.level), entry "checksum" (toString options.checksum),
      entry "raw size" (Text.sizeInUnits w.totalIn)] ++ shrunk ++ pace w.totalIn elapsed

def decode {τ : Type} (codec : Decompressor τ) (fresh : Logged τ) (input : Endpoint)
    (size : Nat) : Attempt m (Delivery (DecompressReader τ)) := do
  let source ← host.source input size
  let r : DecompressReader τ := { source, session := ← note host level fresh }
  finite host level (.decompressing input) (r.drain codec host.patience)

def decompressInto {τ : Type} (codec : Decompressor τ) (fresh : Logged τ)
    (input output : Endpoint) (chunk : Nat) : Attempt m Unit := do
  expect (.opening input) (← host.probe input)
  expect (.creating output) (← host.create output)
  let start ← host.now
  let decoded ← decode host level codec fresh input (max chunk 1)
  let written ← host.write output decoded.content
  expect (.decompressing input) decoded.ended
  expect (.decompressing input) written
  let elapsed := (← host.now) - start
  let size := decoded.content.size
  tell host <|
    [entry "compressed" (Text.sizeInUnits decoded.rest.totalIn),
      entry "raw size" (Text.sizeInUnits size)] ++ pace size elapsed

def openReference (file reference : Endpoint) : Attempt m Unit := do
  -- The file holds the lock of standard input until the command is over.
  if file = .standard ∧ reference = .standard then throw (.endless (.opening reference))
  else expect (.opening reference) (← host.probe reference)

/-- Decompress all of a file, show the digest of the content, and compare it with the digest of a
reference. -/
def verifyAgainst {τ : Type} (codec : Decompressor τ) (fresh : Logged τ) (file : Endpoint)
    (reference : Option Endpoint) : Attempt m Unit := do
  expect (.opening file) (← host.probe file)
  let decoded ← decode host level codec fresh file standardBlock
  expect (.decompressing file) decoded.ended
  let digest : Digest := ⟨decoded.content⟩
  expect (.decompressing file)
    (← host.write .standard (s!"{Text.hex16 digest.value}  {file.path}\n").toUTF8)
  tell host [entry "raw size" (Text.sizeInUnits digest.size)]
  match reference with
  | none => return
  | some reference =>
    openReference host file reference
    let read := (← host.source reference standardBlock).drain
    expect (.readingReference reference) read.ended
    let expected : Digest := ⟨read.content⟩
    if digest.agrees expected then tell host [entry "matches" reference.quoted]
    else throw (.mismatch digest expected)

def perform : Command → Attempt m Unit
  | .compress input output options chunk => compressInto host level input output options chunk
  | .decompress input output chunk =>
    decompressInto host level Frame.decompressor Frame.freshDecoder input output chunk
  | .verify file reference =>
    verifyAgainst host level Frame.decompressor Frame.freshDecoder file reference

end

def severityFor : (verbosity : Nat) → Severity
  | 0 => .warn
  | 1 => .debug
  | _ => .trace

def versionLine : String := "zbridge 0.1.0\n"

def usage : List String :=
  ["Usage: [-v]... COMMAND",
   "",
   "  compress INPUT OUTPUT [-l LEVEL] [--checksum] [--window-log N] [--chunk-size N]",
   "  decompress INPUT OUTPUT [--chunk-size N]",
   "  verify FILE [-o REFERENCE]",
   "",
   "A path of - stands for standard input or output."]

/-- Run a command line and answer with the exit code: 1 if the command failed, 2 if the command
line makes no sense. -/
def run (host : Host m) (args : List String) : m UInt32 := do
  match parse args with
  | .ok call =>
    match ← (perform host (severityFor call.verbosity) call.command).run with
    | .ok () => return 0
    | .error complaint =>
      complaint.lines.forM host.tell
      return 1
  | .error (.misuse misuse) =>
    (s!"error: {misuse.message}" :: usage).forM host.tell
    return 2
  | .error .version =>
    let _ ← host.write .standard versionLine.toUTF8
    return 0
  | .error .help =>
    let _ ← host.write .standard ("\n".intercalate usage ++ "\n").toUTF8
    return 0

end Sluice.Command
