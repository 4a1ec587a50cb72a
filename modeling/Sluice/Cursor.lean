import Sluice.Status

namespace Sluice

structure InWindow where
  src : ByteArray
  pos : Nat

namespace InWindow

def unread (w : InWindow) : ByteArray := w.src.extract w.pos w.src.size

def left (w : InWindow) : Nat := w.src.size - w.pos

end InWindow

/-- What a codec writes to: `size` bytes, of which those from `pos` on are free. The size is
part of the type, so no codec can change it. -/
structure OutWindow (size : Nat) where
  dst : ByteArray
  size_dst : dst.size = size
  pos : Nat

/-- The region with `bytes` laid over it from `offset` on, cut where the region ends. -/
def overlay (region : ByteArray) (offset : Nat) (bytes : ByteArray) : ByteArray :=
  let bytes := bytes.extract 0 (region.size - offset)
  region.extract 0 offset ++ bytes ++ region.extract (offset + bytes.size) region.size

theorem size_overlay (region : ByteArray) (offset : Nat) (bytes : ByteArray)
    (h : offset ≤ region.size) : (overlay region offset bytes).size = region.size := by
  simp only [overlay, ByteArray.size_append, ByteArray.size_extract]
  omega

namespace OutWindow

variable {size : Nat}

def room (w : OutWindow size) : Nat := size - w.pos

def unfilled (w : OutWindow size) : ByteArray := w.dst.extract w.pos size

/-- Write `bytes` at the position and move behind them; what does not fit is dropped. -/
def fill (w : OutWindow size) (bytes : ByteArray) : OutWindow size :=
  if bytes.isEmpty then w
  else if h : w.pos ≤ size then
    { dst := overlay w.dst w.pos bytes
      size_dst := by rw [size_overlay _ _ _ (by rw [w.size_dst]; exact h), w.size_dst]
      pos := w.pos + min bytes.size w.room }
  else w

def whole (region : ByteArray) : OutWindow region.size := ⟨region, rfl, 0⟩

end OutWindow

structure Cursor where
  region : Option ByteArray
  start : Word
  stop : Word

namespace Cursor

def unset : Cursor := ⟨none, 0, 0⟩

def full (region : ByteArray) : Cursor := ⟨some region, 0, .ofNat region.size⟩

def capacity (c : Cursor) : Nat := (c.region.map ByteArray.size).getD 0

/-- The bytes between the bounds, 0 for inverted ones. -/
def remaining (c : Cursor) : Word := c.stop.satSub c.start

def isEmpty (c : Cursor) : Bool := c.remaining == 0

/-- A region is attached and `start ≤ stop ≤ capacity`. -/
def isValid (c : Cursor) : Bool :=
  c.region.isSome && c.start ≤ c.stop && c.stop.toNat ≤ c.capacity

def advance (c : Cursor) (n : Word) : Cursor := { c with start := min (c.start.satAdd n) c.stop }

def resolve (c : Cursor) : Option ByteArray := if c.isValid then c.region else none

def readable (c : Cursor) : Option InWindow :=
  c.resolve.map fun region => ⟨region.extract 0 c.stop.toNat, c.start.toNat⟩

def writable (c : Cursor) : Option ((size : Nat) × OutWindow size) :=
  c.resolve.map fun region => ⟨_, region.extract 0 c.stop.toNat, rfl, c.start.toNat⟩

def commit {size : Nat} (c : Cursor) (w : OutWindow size) : Cursor :=
  { c with region := c.region.map fun region => w.dst ++ region.extract c.stop.toNat region.size }

/-- The bytes in `[start, start + produced)` as far as the region goes. -/
def written (c : Cursor) (produced : Word) : ByteArray :=
  match c.region with
  | none => .empty
  | some region =>
    let stop := min (c.start.satAdd produced).toNat region.size
    region.extract (min c.start.toNat stop) stop

end Cursor

end Sluice
