import Sluice.Hash.Xxh3

namespace Sluice

structure Digest where
  content : ByteArray := .empty

namespace Digest

def update (d : Digest) (piece : ByteArray) : Digest := ⟨d.content ++ piece⟩

/-- A count of 64 bits says the same below `2 ^ 64`. -/
def size (d : Digest) : Nat := d.content.size

def value (d : Digest) : UInt64 := Hash.Xxh3.hash d.content

/-- Two digests speak of the same content as far as they can tell. -/
def agrees (a b : Digest) : Bool := a.value == b.value && a.size == b.size

@[simp] theorem update_update (d : Digest) (a b : ByteArray) :
    (d.update a).update b = d.update (a ++ b) := by
  simp [update, ByteArray.append_assoc]

end Digest

end Sluice
