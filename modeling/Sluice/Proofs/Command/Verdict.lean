import Sluice.Proofs.Codec.Unpacking
import Sluice.Proofs.Command.Attempts
import Sluice.Proofs.Stream.AnyCut

namespace Sluice.Command

variable {τ : Type}

section

variable {sources : Endpoint → Source} {level : Severity} {codec : Decompressor τ}
  {fresh : Logged τ} {file : Endpoint} {patience : Nat} {reference : Option Endpoint}

section

variable {x : Logged (Delivery (DecompressReader τ))}
  (read : reading codec fresh.value (sources file) patience = some x)

include read

end

end

end Sluice.Command
