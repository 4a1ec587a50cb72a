import Sluice.Codec.Echo
import Sluice.Proofs.Bytes
import Sluice.Step

namespace Sluice

variable {σ : Type} {size : Nat}

namespace InWindow

def Inside (w : InWindow) : Prop := w.pos ≤ w.src.size

end InWindow

namespace OutWindow

def Inside (w : OutWindow size) : Prop := w.pos ≤ size

end OutWindow

namespace Answer

def taken (a : Answer σ size) (input : InWindow) : ByteArray := input.src.extract input.pos a.inPos

def given (a : Answer σ size) (output : OutWindow size) : ByteArray :=
  a.output.dst.extract output.pos a.output.pos

structure Within (a : Answer σ size) (input : InWindow) (output : OutWindow size) : Prop where
  input_le : input.pos ≤ a.inPos
  inPos_le : a.inPos ≤ input.src.size
  output_le : output.pos ≤ a.output.pos
  outPos_le : a.output.pos ≤ size

variable {a : Answer σ size} {input : InWindow} {output : OutWindow size}

theorem Within.size_taken (h : a.Within input output) :
    (a.taken input).size = a.inPos - input.pos := by
  have := h.inPos_le
  simp only [taken, ByteArray.size_extract]
  omega

theorem Within.size_given (h : a.Within input output) :
    (a.given output).size = a.output.pos - output.pos := by
  have := h.outPos_le
  simp only [given, ByteArray.size_extract, a.output.size_dst]
  omega

/-- What a step took comes before what it leaves. -/
theorem Within.unread (h : a.Within input output) :
    input.unread = a.taken input ++ InWindow.unread ⟨input.src, a.inPos⟩ :=
  ByteArray.extract_eq_extract_append_extract _ h.input_le h.inPos_le

end Answer

/-- A compressor that keeps the contract in every step. -/
def Compressor.Obeys (codec : Compressor σ) : Prop :=
  ∀ {size : Nat} (s : σ) (input : InWindow) (output : OutWindow size) (mode : EndMode),
    input.Inside → output.Inside → (codec.step s input output mode).Within input output

def Decompressor.Obeys (codec : Decompressor σ) : Prop :=
  ∀ {size : Nat} (s : σ) (input : InWindow) (output : OutWindow size),
    input.Inside → output.Inside → (codec.step s input output).Within input output

theorem OutWindow.whole_inside (region : ByteArray) : (OutWindow.whole region).Inside :=
  Nat.zero_le _

theorem OutWindow.pos_fill {w : OutWindow size} (inside : w.Inside) (bytes : ByteArray) :
    (w.fill bytes).pos = w.pos + min bytes.size w.room := by
  unfold fill
  split
  · rename_i h
    have : bytes.size = 0 := by simpa [ByteArray.isEmpty] using h
    omega
  · unfold Inside at inside
    rw [dif_pos inside]

theorem extract_overlay {region bytes : ByteArray} {offset : Nat}
    (h : offset + bytes.size ≤ region.size) :
    (overlay region offset bytes).extract offset (offset + bytes.size) = bytes := by
  have all : bytes.extract 0 (region.size - offset) = bytes := extract_of_size_le (by omega)
  have before : (region.extract 0 offset).size = offset := by
    rw [ByteArray.size_extract]
    omega
  simp only [overlay, all, ByteArray.append_assoc]
  rw [extract_append_right before, ByteArray.extract_append_eq_left rfl]

theorem InWindow.size_unread (w : InWindow) : w.unread.size = w.left := by
  simp only [unread, left, ByteArray.size_extract]
  omega

theorem InWindow.unread_whole (bytes : ByteArray) : unread ⟨bytes, 0⟩ = bytes :=
  ByteArray.extract_zero_size

theorem InWindow.unread_eq_empty {w : InWindow} (h : w.left = 0) : w.unread = .empty := by
  refine ByteArray.size_eq_zero_iff.mp ?_
  rw [w.size_unread]
  exact h

namespace Portion

/-- A portion takes no more than is unread, and fits the room. -/
structure Fits (p : Portion σ) (unread : ByteArray) (room : Nat) : Prop where
  taken_le : p.taken ≤ unread.size
  given_le : p.given.size ≤ room

variable {p : Portion σ} {input : InWindow} {output : OutWindow size}

theorem Fits.pos_over (h : p.Fits input.unread output.room) (ho : output.Inside) :
    (p.over input output).output.pos = output.pos + p.given.size := by
  change (output.fill p.given).pos = _
  rw [OutWindow.pos_fill ho, Nat.min_eq_left h.given_le]

theorem Fits.within (h : p.Fits input.unread output.room) (hi : input.Inside)
    (ho : output.Inside) : (p.over input output).Within input output := by
  have taken := h.taken_le
  have given := h.given_le
  have room : output.room = size - output.pos := rfl
  have pos := h.pos_over ho
  rw [InWindow.size_unread, InWindow.left] at taken
  unfold InWindow.Inside at hi
  unfold OutWindow.Inside at ho
  refine ⟨?_, ?_, ?_, ?_⟩
  · exact Nat.le_add_right _ _
  · change input.pos + p.taken ≤ input.src.size
    omega
  · omega
  · omega

theorem taken_over (p : Portion σ) (input : InWindow) (output : OutWindow size) :
    (p.over input output).taken input = input.unread.extract 0 p.taken := by
  change input.src.extract input.pos (input.pos + p.taken) =
    (input.src.extract input.pos input.src.size).extract 0 p.taken
  rw [ByteArray.extract_extract, Nat.add_zero, extract_min_size]

theorem code_over (p : Portion σ) (input : InWindow) (output : OutWindow size) :
    (p.over input output).code = p.code := rfl

theorem Fits.given_over (h : p.Fits input.unread output.room) (ho : output.Inside) :
    (p.over input output).given output = p.given := by
  have given := h.given_le
  have room : output.room = size - output.pos := rfl
  change (output.fill p.given).dst.extract output.pos (output.fill p.given).pos = p.given
  rw [OutWindow.pos_fill ho, Nat.min_eq_left given]
  unfold OutWindow.Inside at ho
  unfold OutWindow.fill
  split
  · rename_i none
    rw [isEmpty_iff.mp none]
    simp
  · refine extract_overlay ?_
    rw [output.size_dst]
    omega

end Portion

theorem Compressor.obeys_ofSlices {setParameter : σ → (id value : Int32) → Word × σ}
    {run : σ → ByteArray → (room : Nat) → EndMode → Portion σ}
    (fits : ∀ s unread room mode, (run s unread room mode).Fits unread room) :
    (ofSlices setParameter run).Obeys := by
  intro size s input output mode hi ho
  exact (fits s input.unread output.room mode).within hi ho

theorem Decompressor.obeys_ofSlices {run : σ → ByteArray → (room : Nat) → Portion σ}
    (fits : ∀ s unread room, (run s unread room).Fits unread room) :
    (ofSlices run).Obeys := by
  intro size s input output hi ho
  exact (fits s input.unread output.room).within hi ho

theorem Echo.fits_run (limit : Nat) (s : σ) (unread : ByteArray) (room : Nat) :
    (run limit s unread room).Fits unread room := by
  refine ⟨Nat.min_le_left _ _, ?_⟩
  simp only [run, ByteArray.size_extract]
  omega

theorem Echo.compressor_obeys (limit : Nat) : (compressor limit).Obeys :=
  Compressor.obeys_ofSlices fun s unread room _ => fits_run limit s unread room

end Sluice
