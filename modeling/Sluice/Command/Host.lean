import Sluice.Command.Arguments
import Sluice.Journal
import Sluice.Stream.Source

namespace Sluice.Command

structure Host (m : Type → Type) where
  probe : Endpoint → m (Except Failure Unit)
  create : Endpoint → m (Except Failure Unit)
  /-- What can be read now, in pieces of at most this many bytes. -/
  source : Endpoint → (size : Nat) → m Source
  write : Endpoint → ByteArray → m (Except Failure Unit)
  tell : String → m Unit
  now : m Nat
  /-- How many steps a call may take before it is given up. -/
  patience : Nat

namespace Host

variable {m : Type → Type} [Monad m]

def journal {α : Type} (host : Host m) (level : Severity) (x : Logged α) : m α := do
  (Event.lines level x.events).forM host.tell
  return x.value

end Host

def standardBlock : Nat := 8192

/-- Standard input in pieces of at most `size`. Smaller pieces are cut out of blocks. -/
def standardSource (size : Nat) (bytes : ByteArray) : Source :=
  if size < standardBlock then
    { queue := (Source.cut standardBlock bytes).flatMap fun block => Source.cut size block.bytes }
  else .buffered size bytes

end Sluice.Command
