import Sluice.Journal

namespace Sluice

namespace Compressor

variable {σ : Type}

/-- Set parameters in order up to the first refusal; the state keeps what was set before it. -/
def setAll (codec : Compressor σ) (s : σ) : List (Int32 × Int32) → Except Fault Unit × σ
  | [] => (.ok (), s)
  | (id, value) :: rest =>
    let (code, s) := codec.setParameter s id value
    match checkParameter id value code with
    | .ok () => codec.setAll s rest
    | .error fault => (.error fault, s)

end Compressor

def Options.apply {σ : Type} (o : Options) (codec : Compressor σ) (s : σ) :
    Logged (Except Fault Unit × σ) := do
  let (result, s) := codec.setAll s o.parameters
  if result.isOk then Logged.note (.configured o)
  return (result, s)

end Sluice
