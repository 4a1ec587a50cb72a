import Sluice.Codec
import Sluice.Options
import Sluice.Session.Handle
import Sluice.Text.Quoted

namespace Sluice

inductive Severity
  | warn
  | debug
  | trace
  deriving DecidableEq, Repr

namespace Severity

def rank : Severity → Nat
  | warn => 0
  | debug => 1
  | trace => 2

def label : Severity → String
  | warn => "WARN"
  | debug => "DEBUG"
  | trace => "TRACE"

end Severity

inductive Event
  | accessFailure (input output : Cursor)
  /-- A codec step ran over this many unread bytes and free places. -/
  | step (progress : Progress) (left room : Nat) (status : Status)
  | stale (handle : Handle)
  | noContext (direction : Direction)
  | allocated (direction : Direction)
  | opened (direction : Direction) (handle : Handle)
  | closed (direction : Direction) (handle : Handle)
  | refused (handle : Handle) (id value : Int32) (status : Status)
  | configured (options : Options)
  | emitted (mode : EndMode) (progress : Progress)
  | finished (totalIn totalOut : Nat)
  | delivered (progress : Progress) (pending : Word)
  | compressing (input output : String) (options : Options)

namespace Event

def severity : Event → Severity
  | accessFailure .. | stale .. | noContext .. => .warn
  | step .. | emitted .. | delivered .. => .trace
  | _ => .debug

private def extent (c : Cursor) : String := s!"[{c.start}, {c.stop}) of {c.capacity} bytes"

def text : Event → String
  | accessFailure i o => s!"buffer access failure: input {extent i}, output {extent o}"
  | step p left room status =>
    s!"step: consumed {p.consumed} of {left}, produced {p.produced} of {room}, status {status.render}"
  | stale h => s!"rejected stale session handle {h.render}"
  | noContext d => s!"{d.noun} context allocation failed"
  | allocated d => s!"allocated zstd {d.noun} context"
  | opened d h => s!"opened {d.agent} {h.render}"
  | closed d h => s!"closed {d.agent} {h.render}"
  | refused h id value status =>
    s!"compressor {h.render} rejected parameter {id}={value}: {status.render}"
  | configured o => s!"applied {o.render}"
  | emitted mode p => s!"{mode.name}: consumed {p.consumed}, emitted {p.produced}"
  | finished raw compressed => s!"finished frame: {raw} raw bytes -> {compressed} compressed bytes"
  | delivered p pending =>
    s!"consumed {p.consumed}, produced {p.produced}, pending {pending}"
  | compressing input output o =>
    s!"compressing {Text.quoted input} -> {Text.quoted output} with {o.render}"

def line (e : Event) : String := s!"[{e.severity.label}] {e.text}"

/-- The lines of the events at least as severe as `level`. -/
def lines (level : Severity) (events : List Event) : List String :=
  (events.filter (·.severity.rank ≤ level.rank)).map line

end Event

structure Logged (α : Type) where
  value : α
  events : List Event

namespace Logged

variable {α β : Type}

def note (e : Event) : Logged Unit := ⟨(), [e]⟩

def map (f : α → β) (x : Logged α) : Logged β := ⟨f x.value, x.events⟩

instance : Monad Logged where
  pure a := ⟨a, []⟩
  bind x f := let y := f x.value; ⟨y.value, x.events ++ y.events⟩

@[simp] theorem value_pure (a : α) : (pure a : Logged α).value = a := rfl

@[simp] theorem events_pure (a : α) : (pure a : Logged α).events = [] := rfl

@[simp] theorem value_bind (x : Logged α) (f : α → Logged β) :
    (x >>= f).value = (f x.value).value := rfl

@[simp] theorem events_bind (x : Logged α) (f : α → Logged β) :
    (x >>= f).events = x.events ++ (f x.value).events := rfl

@[simp] theorem value_note (e : Event) : (note e).value = () := rfl

@[simp] theorem events_note (e : Event) : (note e).events = [e] := rfl

end Logged

inductive Turn (α β : Type)
  | again (next : α)
  | done (answer : β)

namespace Logged

variable {α β : Type}

/-- Repeat a step until it is done; `none` if that takes more than `budget` turns. The events of
earlier turns are in `seen`. -/
def repeatFrom (step : α → Logged (Turn α β)) : (budget : Nat) → (seen : Array Event) → α →
    Option (Logged β)
  | 0, _, _ => none
  | budget + 1, seen, a =>
    let turn := step a
    match turn.value with
    | .again a => repeatFrom step budget (seen ++ turn.events) a
    | .done b => some ⟨b, seen.toList ++ turn.events⟩

def repeatUntil (step : α → Logged (Turn α β)) (budget : Nat) (a : α) : Option (Logged β) :=
  repeatFrom step budget #[] a

end Logged

end Sluice
