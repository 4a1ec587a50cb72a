import Sluice.Status

namespace Sluice

inductive Fault
  | allocationFailure (direction : Direction)
  | invalidParameter (id value : Int32) (code : Word) (name : String)
  /-- A region is missing or a cursor leaves it; the codec was not called. -/
  | bufferAccess
  | codec (code : Word) (name : String)
  /-- The handle was closed, or never issued by this table. -/
  | staleHandle
  | unknownEndMode (raw : Int32)
  deriving DecidableEq, Repr

namespace Fault

def message : Fault → String
  | allocationFailure d => s!"failed to allocate a {d.noun} context"
  | invalidParameter id value _ name => s!"parameter {id}={value} rejected: {name}"
  | bufferAccess => "buffer access failure: region missing or cursor out of bounds"
  | codec _ name => s!"codec error: {name}"
  | staleHandle => "stale or closed session handle"
  | unknownEndMode raw => s!"unknown end mode {raw}"

def render : Fault → String
  | allocationFailure d => s!"AllocationFailure({d.name})"
  | invalidParameter id value code name =>
    s!"InvalidParameter \x7b param: {id}, value: {value}, code: {code}, name: \"{name}\" \x7d"
  | bufferAccess => "BufferAccess"
  | codec code name => s!"Codec \x7b code: {code}, name: \"{name}\" \x7d"
  | staleHandle => "StaleHandle"
  | unknownEndMode raw => s!"UnknownEndMode({raw})"

end Fault

def Status.toExcept : Status → Except Fault Word
  | .hint c => .ok c
  | .error c => .error (.codec c (describe c))
  | .bufferAccessFailure => .error .bufferAccess

def EndMode.parse (raw : Int32) : Except Fault EndMode :=
  match EndMode.ofInt? raw with
  | some mode => .ok mode
  | none => .error (.unknownEndMode raw)

def checkParameter (id value : Int32) (code : Word) : Except Fault Unit :=
  match Status.ofCode code with
  | .hint _ => .ok ()
  | _ => .error (.invalidParameter id value code ((errorName code).getD unspecified))

/-- The kinds of stream failure that callers act on; a device may report any other by its name. -/
inductive FailureKind
  | interrupted
  | unexpectedEof
  | writeZero
  | other
  | device (name : String)
  deriving DecidableEq, Repr

structure Failure where
  kind : FailureKind
  message : String
  deriving DecidableEq, Repr

namespace Failure

def ofFault (f : Fault) : Failure := ⟨.other, f.message⟩

def writeZero : Failure := ⟨.writeZero, "failed to write whole buffer"⟩

def truncated : Failure := ⟨.unexpectedEof, "EOF before end of stream"⟩

/-- A step over unread input moved nothing. -/
def stalled : Failure := ⟨.other, "decompressor made no progress"⟩

end Failure

end Sluice
