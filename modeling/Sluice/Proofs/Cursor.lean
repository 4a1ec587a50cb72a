import Sluice.Codec
import Sluice.Proofs.Bytes

namespace Sluice

namespace Word

theorem toNat_satAdd (a b : Word) :
    (a.satAdd b).toNat = min (a.toNat + b.toNat) (UInt64.size - 1) := by
  have ha := a.toNat_lt
  have hb := b.toNat_lt
  unfold satAdd
  split
  · rename_i fits
    rw [UInt64.toNat_add, Nat.mod_eq_of_lt fits]
    omega
  · rename_i past
    have top : (UInt64.ofNat (UInt64.size - 1)).toNat = UInt64.size - 1 := rfl
    rw [top]
    omega

theorem toNat_min (a b : Word) : (min a b).toNat = min a.toNat b.toNat := by
  have unfolded : min a b = if a ≤ b then a else b := rfl
  rw [unfolded]
  split
  · rename_i le
    have := UInt64.le_iff_toNat_le.mp le
    omega
  · rename_i lt
    have := mt UInt64.le_iff_toNat_le.mpr lt
    omega

end Word

namespace Cursor

variable {c : Cursor} {region : ByteArray}

/-- The cursor has this region, and its bounds are in order and inside it. -/
structure Resolves (c : Cursor) (region : ByteArray) : Prop where
  attached : c.region = some region
  start_le : c.start.toNat ≤ c.stop.toNat
  stop_le : c.stop.toNat ≤ region.size

def inWindow (c : Cursor) (region : ByteArray) : InWindow :=
  ⟨region.extract 0 c.stop.toNat, c.start.toNat⟩

def outWindow (c : Cursor) (region : ByteArray) :
    OutWindow (region.extract 0 c.stop.toNat).size :=
  { OutWindow.whole (region.extract 0 c.stop.toNat) with pos := c.start.toNat }

theorem isValid_iff : c.isValid = true ↔ ∃ region, c.Resolves region := by
  obtain ⟨attached, start, stop⟩ := c
  cases attached with
  | none =>
    constructor
    · intro valid
      simp [isValid] at valid
    · rintro ⟨region, resolves⟩
      cases resolves.attached
  | some region =>
    have bounds : (⟨some region, start, stop⟩ : Cursor).isValid = true ↔
        start ≤ stop ∧ stop.toNat ≤ region.size := by
      unfold isValid
      rw [Bool.and_eq_true, Bool.and_eq_true, decide_eq_true_iff, decide_eq_true_iff]
      simp [capacity]
    rw [bounds]
    constructor
    · rintro ⟨ordered, inside⟩
      exact ⟨region, rfl, UInt64.le_iff_toNat_le.mp ordered, inside⟩
    · rintro ⟨other, same, ordered, inside⟩
      cases same
      exact ⟨UInt64.le_iff_toNat_le.mpr ordered, inside⟩

theorem Resolves.resolve_eq (h : c.Resolves region) : c.resolve = some region := by
  unfold resolve
  rw [if_pos (isValid_iff.mpr ⟨region, h⟩), h.attached]

theorem resolve_eq_none (h : ¬∃ region, c.Resolves region) : c.resolve = none := by
  unfold resolve
  rw [if_neg (mt isValid_iff.mp h)]

theorem Resolves.size_window (h : c.Resolves region) :
    (region.extract 0 c.stop.toNat).size = c.stop.toNat := by
  have := h.stop_le
  rw [ByteArray.size_extract]
  omega

theorem Resolves.pos_inWindow_le (h : c.Resolves region) :
    (c.inWindow region).pos ≤ (c.inWindow region).src.size := by
  change c.start.toNat ≤ (region.extract 0 c.stop.toNat).size
  rw [h.size_window]
  exact h.start_le

theorem Resolves.pos_outWindow_le (h : c.Resolves region) :
    (c.outWindow region).pos ≤ (region.extract 0 c.stop.toNat).size := by
  change c.start.toNat ≤ (region.extract 0 c.stop.toNat).size
  rw [h.size_window]
  exact h.start_le

theorem toNat_start_advance (c : Cursor) (n : Word) :
    (c.advance n).start.toNat = min (c.start.toNat + n.toNat) c.stop.toNat := by
  have := c.stop.toNat_lt
  have size : UInt64.size = 2 ^ 64 := rfl
  change (min (c.start.satAdd n) c.stop).toNat = _
  rw [Word.toNat_min, Word.toNat_satAdd]
  omega

theorem Resolves.advance (h : c.Resolves region) {n : Nat}
    (left : n ≤ c.stop.toNat - c.start.toNat) :
    (c.advance (.ofNat n)).Resolves region ∧
      (c.advance (.ofNat n)).start.toNat = c.start.toNat + n := by
  have ordered := h.start_le
  have small : n < UInt64.size := by
    have := c.stop.toNat_lt
    have size : UInt64.size = 2 ^ 64 := rfl
    omega
  have word : (UInt64.ofNat n).toNat = n := UInt64.toNat_ofNat_of_lt' small
  have start := c.toNat_start_advance (.ofNat n)
  rw [word] at start
  refine ⟨⟨h.attached, ?_, h.stop_le⟩, ?_⟩
  · rw [start]
    exact Nat.min_le_right _ _
  · omega

/-- A window put back changes the region up to `stop` only. -/
theorem Resolves.commit (h : c.Resolves region)
    (w : OutWindow (region.extract 0 c.stop.toNat).size) :
    ∃ after, (c.commit w).region = some after ∧ after.size = region.size ∧
      after.extract 0 c.stop.toNat = w.dst ∧
      after.extract c.stop.toNat after.size = region.extract c.stop.toNat region.size := by
  have size : w.dst.size = c.stop.toNat := w.size_dst.trans h.size_window
  have rest : (region.extract c.stop.toNat region.size).size = region.size - c.stop.toNat := by
    rw [ByteArray.size_extract, Nat.min_self]
  refine ⟨w.dst ++ region.extract c.stop.toNat region.size, ?_, ?_, ?_, ?_⟩
  · simp only [Cursor.commit, h.attached, Option.map_some]
  · have := h.stop_le
    rw [ByteArray.size_append, size, rest]
    omega
  · exact ByteArray.extract_append_eq_left size.symm
  · rw [ByteArray.size_append, size, extract_append_right size]
    exact extract_of_size_le (Nat.le_refl _)

end Cursor

namespace OutWindow

variable {size : Nat} {w w' : OutWindow size}

def put (w : OutWindow size) (offset : Nat) (bytes : ByteArray) : OutWindow size where
  dst := overlay w.dst (min (w.pos + offset) size) bytes
  size_dst := by
    rw [size_overlay _ _ _ (by rw [w.size_dst]; exact Nat.min_le_right _ _), w.size_dst]
  pos := w.pos

/-- What writing through the free part only, and moving the position forward, makes of a window. -/
inductive Filled (w : OutWindow size) : OutWindow size → Prop
  | refl : Filled w w
  | put {w' : OutWindow size} (before : Filled w w') (offset : Nat) (bytes : ByteArray) :
    Filled w (w'.put offset bytes)
  | advance {w' : OutWindow size} (before : Filled w w') (n : Nat) :
    Filled w { w' with pos := w'.pos + n }

theorem extract_overlay_before {region bytes : ByteArray} {k offset : Nat} (le : k ≤ offset)
    (inside : offset ≤ region.size) :
    (overlay region offset bytes).extract 0 k = region.extract 0 k := by
  have front : k ≤ (region.extract 0 offset).size := by
    rw [ByteArray.size_extract]
    omega
  have near : min (0 + k) offset = k := by omega
  unfold overlay
  dsimp only
  rw [ByteArray.append_assoc, extract_append_of_le front, ByteArray.extract_extract, near]

/-- Bytes before the position are out of reach. -/
theorem Filled.kept (h : Filled w w') :
    w.pos ≤ w'.pos ∧ (w.pos ≤ size → w'.dst.extract 0 w.pos = w.dst.extract 0 w.pos) := by
  induction h with
  | refl => exact ⟨Nat.le_refl _, fun _ => rfl⟩
  | @put w' before offset bytes ih =>
    refine ⟨ih.1, fun inside => ?_⟩
    have bound : min (w'.pos + offset) size ≤ w'.dst.size := by
      rw [w'.size_dst]
      exact Nat.min_le_right _ _
    refine (extract_overlay_before ?_ bound).trans (ih.2 inside)
    have := ih.1
    omega
  | advance before n ih => exact ⟨Nat.le_trans ih.1 (Nat.le_add_right _ _), ih.2⟩

theorem filled_fill (w : OutWindow size) (bytes : ByteArray) : Filled w (w.fill bytes) := by
  unfold fill
  split
  · exact .refl
  · split
    · rename_i inside
      have next := ((Filled.refl (w := w)).put 0 bytes).advance (min bytes.size w.room)
      simp only [OutWindow.put, Nat.add_zero, Nat.min_eq_left inside] at next
      exact next
    · exact .refl

end OutWindow

variable {σ : Type}

/-- A compressor that writes through the free part of its output only. -/
def Compressor.FillsOnly (codec : Compressor σ) : Prop :=
  ∀ {size : Nat} (s : σ) (input : InWindow) (output : OutWindow size) (mode : EndMode),
    output.Filled (codec.step s input output mode).output

def Decompressor.FillsOnly (codec : Decompressor σ) : Prop :=
  ∀ {size : Nat} (s : σ) (input : InWindow) (output : OutWindow size),
    output.Filled (codec.step s input output).output

end Sluice
