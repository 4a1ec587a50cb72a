import Sluice.Codec.Blocks
import Sluice.Proofs.Codec.Streaming

namespace Sluice.Blocks

/-- A scanner between two bytes: how many bytes of the current block are outstanding, and the
content so far. -/
structure Scan where
  need : Nat
  content : ByteArray

namespace Scan

def feed (s : Scan) (b : UInt8) : Scan :=
  match s.need with
  | 0 => ⟨b.toNat, s.content⟩
  | need + 1 => ⟨need, s.content.push b⟩

def after (s : Scan) (bytes : ByteArray) : Scan := bytes.data.toList.foldl feed s

def start : Scan := ⟨0, .empty⟩

variable {s : Scan} {a b : ByteArray} {need : Nat} {content : ByteArray}

@[simp] theorem after_empty (s : Scan) : s.after .empty = s := rfl

theorem after_append (s : Scan) (a b : ByteArray) : s.after (a ++ b) = (s.after a).after b := by
  simp [after, ByteArray.data_append, List.foldl_append]

theorem after_push (s : Scan) (a : ByteArray) (x : UInt8) :
    s.after (a.push x) = (s.after a).feed x := by
  simp [after, ByteArray.data_push, List.foldl_append]

theorem foldl_feed {l : List UInt8} (h : l.length ≤ need) :
    l.foldl feed ⟨need, content⟩ = ⟨need - l.length, content ++ ⟨l.toArray⟩⟩ := by
  induction l generalizing need content with
  | nil =>
    have : (⟨#[]⟩ : ByteArray) = .empty := rfl
    simp [this]
  | cons x l ih =>
    obtain ⟨n, rfl⟩ : ∃ n, need = n + 1 := ⟨need - 1, by simp at h; omega⟩
    have rest : l.length ≤ n := by simpa using h
    have next : content.push x ++ ⟨l.toArray⟩ = content ++ ⟨(x :: l).toArray⟩ := by
      ext1
      simp
    rw [List.foldl_cons]
    change l.foldl feed ⟨n, content.push x⟩ = _
    rw [ih rest, next, List.length_cons, Nat.add_sub_add_right]

/-- Bytes of one block are content. -/
theorem after_block (h : b.size ≤ need) :
    after ⟨need, content⟩ b = ⟨need - b.size, content ++ b⟩ :=
  foldl_feed (l := b.data.toList) h

theorem after_extract_succ (s : Scan) {k : Nat} (h : k < b.size) :
    s.after (b.extract 0 (k + 1)) = (s.after (b.extract 0 k)).feed b[k] := by
  rw [extract_succ (Nat.zero_le k) h, after_push]

end Scan

/-- The bytes that stand where a block's length is due are lengths. -/
def Lengths (s : Scan) (bytes : ByteArray) : Prop :=
  ∀ k, ∀ h : k < bytes.size, (s.after (bytes.extract 0 k)).need = 0 → bytes[k] < lengthLimit

/-- A step over bytes that a scanner in state `s` goes on with, so far: the next `pos` bytes are
read, and `out` is what they gave. -/
structure Unpacked (s : Scan) (bytes : ByteArray) (room pos : Nat) (p : Portion Nat) : Prop where
  pos_le : pos ≤ p.taken
  taken_le : p.taken ≤ bytes.size
  given_le : p.given.size ≤ room
  scan : s.after (bytes.extract 0 p.taken) = ⟨p.state, s.content ++ p.given⟩
  small : p.state < 256
  fine : p.code.isError = false
  ended : p.code = 0 ↔ ∃ j, ∃ h : j < bytes.size, pos ≤ j ∧ p.taken = j + 1 ∧
    (s.after (bytes.extract 0 j)).need = 0 ∧ bytes[j] = 0

section Unpack

variable {s : Scan} {bytes out : ByteArray} {room need pos : Nat} {p : Portion Nat}

theorem isError_ofNat {n : Nat} (h : n < 256) : Word.isError (.ofNat n) = false := by
  have size : n % UInt64.size = n := Nat.mod_eq_of_lt (Nat.lt_trans h (by decide))
  simp only [Word.isError, decide_eq_false_iff_not, UInt64.lt_iff_toNat_lt]
  rw [UInt64.toNat_ofNat', size]
  have bound : (Word.ofError Word.reservedErrors).toNat = 18446744073709551496 := by decide
  omega

theorem ofNat_ne_zero {n : Nat} (pos : 0 < n) (h : n < 256) : (.ofNat n : Word) ≠ 0 := by
  intro zero
  have size : n % UInt64.size = n := Nat.mod_eq_of_lt (Nat.lt_trans h (by decide))
  have := congrArg UInt64.toNat zero
  rw [UInt64.toNat_ofNat', size] at this
  exact Nat.ne_of_gt pos this

theorem scan_length (h : pos < bytes.size)
    (scan : s.after (bytes.extract 0 pos) = ⟨0, s.content ++ out⟩) :
    s.after (bytes.extract 0 (pos + 1)) = ⟨bytes[pos].toNat, s.content ++ out⟩ := by
  rw [Scan.after_extract_succ s h, scan]
  rfl

theorem scan_content (scan : s.after (bytes.extract 0 pos) = ⟨need, s.content ++ out⟩) {n : Nat}
    (le : n ≤ need) (inside : pos + n ≤ bytes.size) :
    s.after (bytes.extract 0 (pos + n)) =
      ⟨need - n, s.content ++ (out ++ bytes.extract pos (pos + n))⟩ := by
  have size : (bytes.extract pos (pos + n)).size = n := by
    rw [ByteArray.size_extract]
    omega
  rw [ByteArray.extract_eq_extract_append_extract pos (Nat.zero_le _) (Nat.le_add_right _ _),
    Scan.after_append, scan, Scan.after_block (by omega), size, ByteArray.append_assoc]

theorem Unpacked.stop (small : need < 256) (fits : out.size ≤ room) (inside : pos ≤ bytes.size)
    (scan : s.after (bytes.extract 0 pos) = ⟨need, s.content ++ out⟩) :
    Unpacked s bytes room pos ⟨.ofNat (max need 1), need, pos, out⟩ := by
  refine ⟨Nat.le_refl _, inside, fits, scan, small, isError_ofNat (by omega), ?_⟩
  constructor
  · intro zero
    exact absurd zero (ofNat_ne_zero (by omega) (by omega))
  · rintro ⟨j, h, le, taken, -⟩
    change pos = j + 1 at taken
    omega

theorem Unpacked.zero (h : pos < bytes.size) (zero : bytes[pos] = 0) (fits : out.size ≤ room)
    (scan : s.after (bytes.extract 0 pos) = ⟨0, s.content ++ out⟩) :
    Unpacked s bytes room pos ⟨0, 0, pos + 1, out⟩ := by
  refine ⟨Nat.le_succ _, h, fits, ?_, Nat.zero_lt_succ _, rfl, ?_⟩
  · rw [scan_length h scan, zero]
    rfl
  · refine ⟨fun _ => ⟨pos, h, Nat.le_refl _, rfl, by rw [scan], zero⟩, fun _ => rfl⟩

theorem Unpacked.length (h : pos < bytes.size) (nonzero : bytes[pos] ≠ 0)
    (later : Unpacked s bytes room (pos + 1) p) : Unpacked s bytes room pos p := by
  refine ⟨Nat.le_of_succ_le later.pos_le, later.taken_le, later.given_le, later.scan,
    later.small, later.fine, later.ended.trans ?_⟩
  constructor
  · rintro ⟨j, hj, le, rest⟩
    exact ⟨j, hj, Nat.le_of_succ_le le, rest⟩
  · rintro ⟨j, hj, le, taken, due, zero⟩
    have other : j ≠ pos := by
      rintro rfl
      exact nonzero zero
    exact ⟨j, hj, by omega, taken, due, zero⟩

theorem Unpacked.content (scan : s.after (bytes.extract 0 pos) = ⟨need, s.content ++ out⟩)
    {n : Nat} (le : n ≤ need) (later : Unpacked s bytes room (pos + n) p) :
    Unpacked s bytes room pos p := by
  refine ⟨by have := later.pos_le; omega, later.taken_le, later.given_le, later.scan,
    later.small, later.fine, later.ended.trans ?_⟩
  constructor
  · rintro ⟨j, hj, near, rest⟩
    exact ⟨j, hj, by omega, rest⟩
  · rintro ⟨j, hj, near, taken, due, zero⟩
    -- No length is due inside the block.
    have far : pos + n ≤ j := by
      by_cases far : pos + n ≤ j
      · exact far
      · have mid := scan_content scan (n := j - pos) (by omega) (by omega)
        rw [Nat.add_sub_cancel' near] at mid
        rw [mid] at due
        change need - (j - pos) = 0 at due
        omega
    exact ⟨j, hj, far, taken, due, zero⟩

theorem unpacked (lengths : Lengths s bytes) (small : need < 256) (fits : out.size ≤ room)
    (inside : pos ≤ bytes.size)
    (scan : s.after (bytes.extract 0 pos) = ⟨need, s.content ++ out⟩) :
    Unpacked s bytes room pos (unpack bytes room need pos out) := by
  fun_induction unpack bytes room need pos out with
  | case1 pos out h length zero => exact .zero h zero fits scan
  | case2 pos out h length nonzero invalid =>
    have valid := lengths pos h (by rw [scan])
    exact absurd (UInt8.lt_of_lt_of_le valid invalid) (UInt8.lt_irrefl _)
  | case3 pos out h length nonzero valid ih =>
    refine .length h nonzero (ih ?_ fits h (scan_length h scan))
    exact bytes[pos].toNat_lt
  | case4 need pos out _ h busy n still => exact .stop small fits inside scan
  | case5 need pos out h busy n moves ih =>
    have le : n ≤ need := Nat.min_le_left _ _
    have fit : n ≤ bytes.size - pos ∧ n ≤ room - out.size := by
      have := Nat.min_le_right need (min (bytes.size - pos) (room - out.size))
      omega
    refine .content scan le (ih (by omega) ?_ (by omega) (scan_content scan le (by omega)))
    rw [ByteArray.size_append, ByteArray.size_extract]
    omega
  | case6 need pos out _ h => exact .stop small fits inside scan

theorem pos_le_unpack (bytes : ByteArray) (room need pos : Nat) (out : ByteArray) :
    pos ≤ (unpack bytes room need pos out).taken := by
  fun_induction unpack bytes room need pos out with
  | case1 => exact Nat.le_succ _
  | case2 => exact Nat.le_succ _
  | case3 pos out h length nonzero valid ih => exact Nat.le_of_succ_le ih
  | case4 => exact Nat.le_refl _
  | case5 need pos out h busy n moves ih => exact Nat.le_trans (Nat.le_add_right _ _) ih
  | case6 => exact Nat.le_refl _

theorem unpack_fits (fits : out.size ≤ room) (inside : pos ≤ bytes.size) :
    (unpack bytes room need pos out).Fits bytes room := by
  fun_induction unpack bytes room need pos out with
  | case1 pos out h => exact ⟨h, fits⟩
  | case2 pos out h => exact ⟨h, fits⟩
  | case3 pos out h length nonzero valid ih => exact ih fits h
  | case4 need pos out => exact ⟨inside, fits⟩
  | case5 need pos out h busy n moves ih =>
    have le : n ≤ bytes.size - pos ∧ n ≤ room - out.size := by
      have := Nat.min_le_right need (min (bytes.size - pos) (room - out.size))
      omega
    refine ih ?_ (by omega)
    rw [ByteArray.size_append, ByteArray.size_extract]
    omega
  | case6 need pos out => exact ⟨inside, fits⟩

/-- A step moves on if there is a byte to look at and a place to put it. -/
theorem lt_unpack (h : pos < bytes.size) (free : out.size < room) :
    pos < (unpack bytes room need pos out).taken := by
  unfold unpack
  simp only [h, dite_true]
  split
  · split
    · exact Nat.lt_succ_self _
    · split
      · exact Nat.lt_succ_self _
      · exact pos_le_unpack _ _ _ _ _
  · split
    · omega
    · exact Nat.lt_of_lt_of_le (by omega) (pos_le_unpack _ _ _ _ _)

end Unpack

theorem decompressor_obeys : decompressor.Obeys :=
  Decompressor.obeys_ofSlices fun _ _ _ => unpack_fits (Nat.zero_le _) (Nat.zero_le _)

/-- What a stream means to the scanner. A frame ends after a zero length. -/
def frames (bytes : ByteArray) : Frames where
  bytes
  content k := (Scan.start.after (bytes.extract 0 k)).content
  FrameEnd k := ∃ j, ∃ h : j < bytes.size,
    k = j + 1 ∧ (Scan.start.after (bytes.extract 0 j)).need = 0 ∧ bytes[j] = 0

section Decode

variable {bytes out : ByteArray} {k need : Nat}

structure Located (bytes : ByteArray) (k need : Nat) (out : ByteArray) : Prop where
  small : need < 256
  inside : k ≤ bytes.size
  scan : Scan.start.after (bytes.extract 0 k) = ⟨need, out⟩

theorem Located.after_window (h : Located bytes k need out) {stop j : Nat}
    (le : j ≤ (bytes.extract k stop).size) :
    Scan.after ⟨need, out⟩ ((bytes.extract k stop).extract 0 j) =
      Scan.start.after (bytes.extract 0 (k + j)) := by
  rw [← extract_window le, Scan.after_append, h.scan]

theorem Located.lengths (h : Located bytes k need out) (valid : Lengths .start bytes)
    (stop : Nat) : Lengths ⟨need, out⟩ (bytes.extract k stop) := by
  intro j hj due
  rw [h.after_window (Nat.le_of_lt hj)] at due
  have inside : k + j < bytes.size := by
    rw [ByteArray.size_extract] at hj
    omega
  have value := valid (k + j) inside due
  rw [ByteArray.getElem_extract]
  exact value

/-- A frame ends in a window where it ends in the stream. -/
theorem Located.frameEnd_iff (h : Located bytes k need out) {stop taken : Nat}
    (upto : taken ≤ (bytes.extract k stop).size) :
    (∃ j, ∃ hj : j < (bytes.extract k stop).size, 0 ≤ j ∧ taken = j + 1 ∧
      (Scan.after ⟨need, out⟩ ((bytes.extract k stop).extract 0 j)).need = 0 ∧
        (bytes.extract k stop)[j] = 0) ↔
      0 < taken ∧ (frames bytes).FrameEnd (k + taken) := by
  constructor
  · rintro ⟨j, hj, -, rfl, due, zero⟩
    rw [h.after_window (Nat.le_of_lt hj)] at due
    rw [ByteArray.getElem_extract] at zero
    have inside : k + j < bytes.size := by
      rw [ByteArray.size_extract] at hj
      omega
    exact ⟨Nat.succ_pos j, k + j, inside, rfl, due, zero⟩
  · rintro ⟨positive, j, inside, last, due, zero⟩
    obtain ⟨i, rfl⟩ : ∃ i, taken = i + 1 := ⟨taken - 1, by omega⟩
    obtain rfl : j = k + i := by omega
    refine ⟨i, upto, Nat.zero_le _, rfl, ?_, ?_⟩
    · rw [h.after_window (Nat.le_of_lt upto)]
      exact due
    · rw [ByteArray.getElem_extract]
      exact zero

variable {input : InWindow} {size : Nat} {output : OutWindow size}

/-- What a step of the decompressor does to a stream of blocks. -/
structure Stepped (bytes : ByteArray) (k need : Nat) (out : ByteArray) (input : InWindow)
    (output : OutWindow size) (a : Answer Nat size) : Prop where
  fine : a.code.isError = false
  located : Located bytes (k + (a.taken input).size) a.state (out ++ a.given output)
  moves : 0 < output.room → input.left ≠ 0 → 0 < (a.taken input).size
  given : (a.taken input).size = 0 → a.given output = .empty
  ended : a.code = 0 ↔ 0 < (a.taken input).size ∧
    (frames bytes).FrameEnd (k + (a.taken input).size)

theorem Located.stepped (h : Located bytes k need out) (valid : Lengths .start bytes)
    (room : output.Inside) (shows : input.Shows bytes k) :
    Stepped bytes k need out input output (decompressor.step need input output) := by
  obtain ⟨stop, shown⟩ := shows
  let p := Unpacker.run need input.unread output.room
  have fits : p.Fits input.unread output.room := unpack_fits (Nat.zero_le _) (Nat.zero_le _)
  have taken : ((decompressor.step need input output).taken input).size = p.taken := by
    change ((p.over input output).taken input).size = _
    rw [Portion.taken_over, ByteArray.size_extract]
    have := fits.taken_le
    omega
  have given : (decompressor.step need input output).given output = p.given := fits.given_over room
  have run : Unpacked ⟨need, out⟩ input.unread output.room 0 p := by
    refine unpacked ?_ h.small (Nat.zero_le _) (Nat.zero_le _) ?_
    · rw [shown]
      exact h.lengths valid stop
    · simp
  have scan := run.scan
  have upto := run.taken_le
  rw [shown] at scan upto
  rw [h.after_window upto] at scan
  have inside : k + p.taken ≤ bytes.size ∨ p.taken = 0 := by
    rw [ByteArray.size_extract] at upto
    omega
  have le := h.inside
  refine ⟨run.fine, ⟨run.small, ?_, ?_⟩, ?_, ?_, ?_⟩
  · rw [taken]
    omega
  · rw [taken, given]
    exact scan
  · intro free left
    rw [taken]
    refine lt_unpack ?_ free
    rw [InWindow.size_unread]
    exact Nat.pos_of_ne_zero left
  · intro none
    rw [taken] at none
    rw [none, Nat.add_zero, h.scan] at scan
    rw [given]
    have same : out ++ .empty = out ++ p.given := by
      rw [ByteArray.append_empty]
      exact congrArg Scan.content scan
    exact ((ByteArray.append_right_inj _).mp same).symm
  · rw [taken]
    rw [shown] at run
    exact run.ended.trans (h.frameEnd_iff upto)

theorem located_fed {s : Nat} (valid : Lengths .start bytes)
    (run : decompressor.Fed 0 bytes k out s) : Located bytes k s out := by
  induction run with
  | fresh => exact ⟨by decide, Nat.zero_le _, by simp [Scan.start]⟩
  | step run input output inside room shows ih => exact (ih.stepped valid room shows).located

/-- The decompressor decodes every stream whose lengths are valid. -/
theorem decodes (valid : Lengths .start bytes) : decompressor.Decodes 0 (frames bytes) := by
  constructor
  · simp [frames, Scan.start]
  · intro k out s size run input output inside room shows
    have here := located_fed valid run
    have step : Stepped bytes k s out input output _ := here.stepped valid room shows
    have content : ∀ {k need : Nat} {out : ByteArray}, Located bytes k need out →
        (frames bytes).content k = out := fun h => congrArg Scan.content h.scan
    refine ⟨step.fine, ⟨.empty, ?_⟩, ?_, ?_, ?_⟩
    · rw [content step.located, ByteArray.append_empty]
    · rintro free (left | missing)
      · have := step.moves free left
        omega
      · exact absurd (content here).symm missing
    · intro zero
      exact ⟨(step.ended.mp zero).2, (content step.located).symm⟩
    · intro moved ends _
      refine step.ended.mpr ⟨?_, ends⟩
      rcases Nat.eq_zero_or_pos ((decompressor.step s input output).taken input).size with
        none | positive
      · rw [step.given none] at moved
        exact moved
      · exact positive

end Decode

end Sluice.Blocks
