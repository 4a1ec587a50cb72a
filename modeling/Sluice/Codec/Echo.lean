import Sluice.Codec

namespace Sluice.Echo

/-- Bytes come out as they went in, at most `limit` in a step. The hint is what was left unread. -/
def run {σ : Type} (limit : Nat) (s : σ) (input : ByteArray) (room : Nat) : Portion σ :=
  let n := min input.size (min room limit)
  ⟨.ofNat (input.size - n), s, n, input.extract 0 n⟩

/-- Any parameter may be set; the answer is its value, or 0 for a negative one. -/
def setParameter {σ : Type} (s : σ) (_id value : Int32) : Word × σ :=
  (.ofNat value.toInt.toNat, s)

def compressor (limit : Nat) : Compressor Unit :=
  .ofSlices setParameter fun s input room _ => run limit s input room

def decompressor (limit : Nat) : Decompressor Unit :=
  .ofSlices (run limit)

end Sluice.Echo
