import Sluice.Step
import Sluice.Stream.Source

namespace Sluice

structure DecompressReader (τ : Type) where
  source : Source
  session : τ
  /-- The hint of the latest step that did not fail; 0 before the first frame. -/
  pending : Word := 0
  /-- Bytes the codec has consumed; 64 bits hold the two counts below `2 ^ 64`. -/
  totalIn : Nat := 0
  /-- Bytes the codec has produced. -/
  totalOut : Nat := 0

namespace DecompressReader

variable {τ : Type}

def atFrameBoundary (r : DecompressReader τ) : Bool := r.pending == 0

abbrev Reply (τ : Type) := Except Failure ByteArray × DecompressReader τ

def decode (codec : Decompressor τ) (r : DecompressReader τ) (shown buf : ByteArray) :
    Logged (Turn (DecompressReader τ × ByteArray) (Reply τ)) := do
  let input : InWindow := ⟨shown, 0⟩
  let output := OutWindow.whole buf
  let x ← (codec.step r.session input output).settle input output
  let p := x.report.progress
  let r := { r with
    source := r.source.consume p.consumed, session := x.state,
    totalIn := r.totalIn + p.consumed, totalOut := r.totalOut + p.produced }
  match x.report.status.toExcept with
  | .error fault => return .done (.error (.ofFault fault), r)
  | .ok pending =>
    let r := { r with pending }
    Logged.note (.delivered p pending)
    if p.produced ≠ 0 then return .done (.ok (x.output.dst.extract 0 p.produced), r)
    else if shown.isEmpty then return .done (.error .truncated, r)
    else if p.consumed = 0 then return .done (.error .stalled, r)
    else return .again (r, x.output.dst)

/-- One turn of a read: fill, and decode what is shown. At the end of the source one more step
may drain what the codec holds of an open frame. -/
def turn (codec : Decompressor τ) (r : DecompressReader τ) (buf : ByteArray) :
    Logged (Turn (DecompressReader τ × ByteArray) (Reply τ)) :=
  match r.source.fill with
  | (.error f, source) => pure (.done (.error f, { r with source }))
  | (.ok shown, source) =>
    let r := { r with source }
    if shown.isEmpty && r.atFrameBoundary then pure (.done (.ok .empty, r))
    else r.decode codec shown buf

theorem decode_again {codec : Decompressor τ} {r r' : DecompressReader τ}
    {shown buf buf' : ByteArray} (h : (r.decode codec shown buf).value = .again (r', buf')) :
    shown.isEmpty = false ∧ ∃ n, n ≠ 0 ∧ r'.source = r.source.consume n := by
  simp only [decode, Logged.value_bind] at h
  split at h
  · simp at h
  · simp only [Logged.value_bind] at h
    split at h
    · simp at h
    · split at h
      · simp at h
      · rename_i shows
        split at h
        · simp at h
        · rename_i moved
          simp only [Logged.value_pure, Turn.again.injEq, Prod.mk.injEq] at h
          exact ⟨by simpa using shows, _, moved, by rw [← h.1]⟩

theorem left_turn {codec : Decompressor τ} {r r' : DecompressReader τ} {buf buf' : ByteArray}
    (h : (r.turn codec buf).value = .again (r', buf')) : r'.source.left < r.source.left := by
  unfold turn at h
  split at h
  · simp at h
  · rename_i shown source filled
    dsimp only at h
    split at h
    · simp at h
    · obtain ⟨shows, n, moved, hs⟩ := decode_again h
      rw [hs]
      exact Source.left_consume_fill filled shows moved

def readFrom (codec : Decompressor τ) (seen : Array Event) (r : DecompressReader τ)
    (buf : ByteArray) : Logged (Reply τ) :=
  let t := r.turn codec buf
  match h : t.value with
  | .done answer => ⟨answer, seen.toList ++ t.events⟩
  | .again (r', buf') =>
    have := left_turn h
    readFrom codec (seen ++ t.events) r' buf'
termination_by r.source.left

/-- Read into a buffer. An empty buffer is answered at once; else no bytes mean the end. -/
def read (codec : Decompressor τ) (r : DecompressReader τ) (buf : ByteArray) :
    Logged (Reply τ) :=
  if buf.isEmpty then pure (.ok .empty, r) else readFrom codec #[] r buf

end DecompressReader

end Sluice
