import Sluice.Codec
import Sluice.Session.Handle

namespace Sluice

structure Entry (α : Type) where
  session : α
  progress : Progress

structure Slot (α : Type) where
  generation : UInt32
  entry : Option (Entry α)

structure SessionTable (α : Type) where
  slots : Array (Slot α) := #[]
  /-- Indices of the slots that hold no session, the next one to reuse first. -/
  free : List UInt32 := []

namespace SessionTable

variable {α : Type}

/-- The index of a slot appended to `n` slots, the largest index where it does not fit. -/
def appendIndex (n : Nat) : UInt32 := .ofNat (min n (UInt32.size - 1))

def slot? (t : SessionTable α) (h : Handle) : Option (Slot α) :=
  t.slots[h.index.toNat]?.filter (·.generation == h.generation)

def get? (t : SessionTable α) (h : Handle) : Option (Entry α) := (t.slot? h).bind (·.entry)

def setSlot (t : SessionTable α) (index : UInt32) (slot : Slot α) : SessionTable α :=
  { t with slots := t.slots.setIfInBounds index.toNat slot }

/-- Open a session in the slot freed last, or in a new one. -/
def insert (t : SessionTable α) (session : α) : Handle × SessionTable α :=
  let entry : Entry α := ⟨session, .zero⟩
  match t.free with
  | index :: free =>
    let generation := (t.slots[index.toNat]?.map (·.generation)).getD 0
    (⟨index, generation⟩, { t.setSlot index ⟨generation, some entry⟩ with free })
  | [] => (⟨appendIndex t.slots.size, 0⟩, { t with slots := t.slots.push ⟨0, some entry⟩ })

/-- Replace the entry of an open session; a handle that finds none changes nothing. -/
def set (t : SessionTable α) (h : Handle) (entry : Entry α) : SessionTable α :=
  match t.get? h with
  | some _ => t.setSlot h.index ⟨h.generation, some entry⟩
  | none => t

def remove (t : SessionTable α) (h : Handle) : Option (α × SessionTable α) :=
  (t.get? h).map fun entry =>
    (entry.session,
      { t.setSlot h.index ⟨h.generation + 1, none⟩ with free := h.index :: t.free })

def size (t : SessionTable α) : Nat := t.slots.size - t.free.length

def isEmpty (t : SessionTable α) : Bool := t.size == 0

end SessionTable

end Sluice
