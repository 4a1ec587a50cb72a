import Sluice.Command.Run

namespace Sluice

def machineFailure (e : IO.Error) : Failure :=
  let told (name : String) (code : UInt32) (details : String) : Failure :=
    ⟨.device name, s!"{details} (os error {code})"⟩
  match e with
  | .noFileOrDirectory _ code details => told "NotFound" code details
  | .noSuchThing _ code details => told "NotFound" code details
  | .inappropriateType _ code details => told "InappropriateType" code details
  | .permissionDenied _ code details => told "PermissionDenied" code details
  | .resourceExhausted _ code details => told "ResourceExhausted" code details
  | .invalidArgument _ code details => told "InvalidInput" code details
  | .interrupted _ _ details => ⟨.interrupted, details⟩
  | e => ⟨.other, toString e⟩

def attemptIO {α : Type} (act : IO α) : IO (Except Failure α) := do
  match ← act.toBaseIO with
  | .ok a => return .ok a
  | .error e => return .error (machineFailure e)

partial def readStream (s : IO.FS.Stream) (seen : ByteArray) : IO ByteArray := do
  let piece ← s.read 65536
  if piece.isEmpty then return seen else readStream s (seen ++ piece)

def sourceOf (cut : ByteArray → Source) : Except Failure ByteArray → Source
  | .ok bytes => cut bytes
  | .error f => { queue := [.gap (.fail f)] }

def machine : Command.Host IO where
  probe
    | .standard => return .ok ()
    | .file path => attemptIO do discard (IO.FS.Handle.mk path .read)
  create
    | .standard => return .ok ()
    | .file path => attemptIO do discard (IO.FS.Handle.mk path .write)
  source
    | .standard, size => do
      let all ← attemptIO do readStream (← IO.getStdin) .empty
      return sourceOf (Command.standardSource size) all
    | .file path, size => do
      return sourceOf (Source.buffered size) (← attemptIO (IO.FS.readBinFile path))
  write
    | .standard, bytes => attemptIO do
      let out ← IO.getStdout
      out.write bytes
      out.flush
    | .file path, bytes => attemptIO do (← IO.FS.Handle.mk path .append).write bytes
  tell line := IO.eprintln line
  now := IO.monoNanosNow
  patience := 1 <<< 48

end Sluice

def main (args : List String) : IO UInt32 := Sluice.Command.run Sluice.machine args
