import Sluice.Configure
import Sluice.Frame.Decoder
import Sluice.Frame.Encoder
import Sluice.Stream.Reader
import Sluice.Stream.Writer

namespace Sluice.Frame

def freshEncoder : Logged Encoder := do
  Logged.note (.allocated .compress)
  return {}

def freshDecoder : Logged Decoder := do
  Logged.note (.allocated .decompress)
  return {}

def configured (options : Options) : Logged (Except Fault Encoder) := do
  let (result, e) ← options.apply compressor (← freshEncoder)
  return result.map fun () => e

def writer (sink : Sink) (options : Options)
    (outputChunk : Nat := CompressWriter.defaultOutputChunk) :
    Logged (Except Fault (CompressWriter Encoder)) := do
  let session ← configured options
  return session.map fun e => CompressWriter.create sink e outputChunk

def reader (source : Source) : Logged (DecompressReader Decoder) := do
  return { source, session := ← freshDecoder }

end Sluice.Frame
