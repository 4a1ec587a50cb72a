import Sluice.Command.Run

namespace Sluice.Command

variable {α β τ : Type}

/-- What an attempt comes to, from what standard output holds. -/
abbrev Attempt.on (x : Attempt (StateM ByteArray) α) (held : ByteArray) :
    Except Complaint α × ByteArray := x.run.run held

variable {sources : Endpoint → Source} {patience : Nat} {level : Severity} {held held' : ByteArray}

/-- The reading of a source to its end, by a fresh session. -/
def reading (codec : Decompressor τ) (fresh : τ) (source : Source) (patience : Nat) :
    Option (Logged (Delivery (DecompressReader τ))) :=
  DecompressReader.drain codec patience { source, session := fresh }

end Sluice.Command
