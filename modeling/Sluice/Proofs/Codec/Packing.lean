import Sluice.Proofs.Codec.Unpacking

namespace Sluice.Blocks

variable {s : Scan} {a b bytes content : ByteArray} {x : UInt8}

theorem Lengths.append (ha : Lengths s a) (hb : Lengths (s.after a) b) : Lengths s (a ++ b) := by
  intro k hk due
  rw [ByteArray.size_append] at hk
  by_cases front : k < a.size
  · rw [extract_append_of_le (Nat.le_of_lt front)] at due
    rw [ByteArray.getElem_append_left front]
    exact ha k front due
  · obtain ⟨j, rfl⟩ : ∃ j, k = a.size + j := ⟨k - a.size, by omega⟩
    have upto : (a ++ b).extract 0 (a.size + j) = a ++ b.extract 0 j := by
      rw [ByteArray.extract_append, extract_of_size_le (Nat.le_add_right _ _), Nat.zero_sub,
        Nat.add_sub_cancel_left]
    rw [upto, Scan.after_append] at due
    have value := hb j (by omega) due
    rw [ByteArray.getElem_append_right (Nat.le_add_right _ _)]
    simpa using value

theorem lengths_single (valid : x < lengthLimit) : Lengths s (ByteArray.empty.push x) := by
  intro k hk _
  obtain rfl : k = 0 := by
    rw [ByteArray.size_push, ByteArray.size_empty] at hk
    omega
  exact valid

theorem lengths_block : Lengths ⟨b.size, content⟩ b := by
  intro k hk due
  have size : (b.extract 0 k).size = k := by
    rw [ByteArray.size_extract]
    omega
  rw [Scan.after_block (by omega), size] at due
  change b.size - k = 0 at due
  omega

/-- The bytes are whole blocks with this content. -/
structure Packed (bytes content : ByteArray) : Prop where
  scan : Scan.start.after bytes = ⟨0, content⟩
  lengths : Lengths .start bytes

theorem Packed.empty : Packed .empty .empty := ⟨rfl, fun k hk => absurd hk (Nat.not_lt_zero k)⟩

theorem after_single (content : ByteArray) (x : UInt8) :
    Scan.after ⟨0, content⟩ (ByteArray.empty.push x) = ⟨x.toNat, content⟩ := by
  rw [Scan.after_push, Scan.after_empty]
  rfl

theorem Packed.framed (h : Packed bytes content) (short : b.size < 128) :
    Packed (bytes ++ Packer.framed b) (content ++ b) := by
  have size : (UInt8.ofNat b.size).toNat = b.size := by
    rw [UInt8.toNat_ofNat', Nat.mod_eq_of_lt (Nat.lt_trans short (by decide))]
  have valid : UInt8.ofNat b.size < lengthLimit := by
    rw [UInt8.lt_iff_toNat_lt, size]
    exact short
  have header := after_single content (.ofNat b.size)
  rw [size] at header
  constructor
  · rw [Packer.framed, Scan.after_append, h.scan, Scan.after_append, header,
      Scan.after_block (Nat.le_refl _), Nat.sub_self]
  · refine h.lengths.append ?_
    rw [h.scan]
    refine (lengths_single valid).append ?_
    rw [header]
    exact lengths_block

theorem Packed.lengths_end (h : Packed bytes content) : Lengths .start (bytes.push 0) := by
  rw [push_eq_append]
  refine h.lengths.append (lengths_single ?_)
  decide

theorem Packed.content_end (h : Packed bytes content) :
    (frames (bytes.push 0)).content (bytes.push 0).size = content := by
  simp only [frames, ByteArray.extract_zero_size]
  rw [Scan.after_push, h.scan]
  rfl

theorem Packed.frameEnd (h : Packed bytes content) :
    (frames (bytes.push 0)).FrameEnd (bytes.push 0).size := by
  have inside : bytes.size < (bytes.push 0).size := by
    rw [ByteArray.size_push]
    omega
  have before : (bytes.push 0).extract 0 bytes.size = bytes := by
    rw [push_eq_append, ByteArray.extract_append_eq_left rfl]
  refine ⟨bytes.size, inside, ByteArray.size_push, ?_, ?_⟩
  · rw [before, h.scan]
  · exact Array.getElem_push_eq

namespace Packer

variable {p : Packer} {n : Nat} {fed out input : ByteArray}

/-- While the frame is open, what was produced and what is queued are blocks, and with what is
held they are all that was fed. -/
structure Open (p : Packer) (fed out : ByteArray) : Prop where
  running : p.ended = false
  packed : ∃ content, Packed (out ++ p.queue) content ∧ content ++ p.held = fed

/-- Once its end is queued, the frame is whole. -/
structure Ending (p : Packer) (fed out : ByteArray) : Prop where
  ended : p.ended = true
  nothing : p.held = .empty
  packed : ∃ body, Packed body fed ∧ out ++ p.queue = body.push 0

theorem Open.feed (h : p.Open fed out) (input : ByteArray) :
    Open { p with held := p.held ++ input } (fed ++ input) out := by
  obtain ⟨content, packed, rfl⟩ := h.packed
  exact ⟨h.running, content, packed, by rw [ByteArray.append_assoc]⟩

theorem Open.queueFull (h : p.Open fed out) (short : n < 128) : (p.queueFull n).Open fed out := by
  fun_induction Packer.queueFull n p with
  | case1 p full ih =>
    apply ih
    obtain ⟨content, packed, rfl⟩ := h.packed
    have size : (p.held.extract 0 n).size = n := by
      rw [ByteArray.size_extract]
      omega
    have next := packed.framed (b := p.held.extract 0 n) (by omega)
    rw [ByteArray.append_assoc] at next
    refine ⟨h.running, _, next, ?_⟩
    rw [ByteArray.append_assoc, extract_append_rest full.2]
  | case2 p _ => exact h

theorem size_held_queueFull (positive : 0 < n) (p : Packer) : (p.queueFull n).held.size < n := by
  fun_induction Packer.queueFull n p with
  | case1 p full ih => exact ih
  | case2 p rest => omega

theorem held_queueRest (p : Packer) : p.queueRest.held = .empty := by
  unfold Packer.queueRest
  split
  · rename_i none
    exact isEmpty_iff.mp none
  · rfl

theorem Open.queueRest (h : p.Open fed out) (short : p.held.size < 128) :
    p.queueRest.Open fed out ∧ p.queueRest.held = .empty := by
  refine ⟨?_, held_queueRest p⟩
  unfold Packer.queueRest
  split
  · exact h
  · obtain ⟨content, packed, rfl⟩ := h.packed
    have next := packed.framed short
    rw [ByteArray.append_assoc] at next
    exact ⟨h.running, _, next, by simp⟩

theorem Open.queueEnd (h : p.Open fed out) (nothing : p.held = .empty) :
    p.queueEnd.Ending fed out := by
  obtain ⟨content, packed, rfl⟩ := h.packed
  have same : p.queueEnd = { p with queue := p.queue.push 0, ended := true } := by
    simp [Packer.queueEnd, h.running]
  rw [same]
  refine ⟨rfl, nothing, out ++ p.queue, ?_, append_push _ _ _⟩
  rw [nothing, ByteArray.append_empty]
  exact packed

theorem Open.absorb (h : p.Open fed out) (input : ByteArray) (positive : 0 < n) (short : n < 128)
    {mode : EndMode} (goes : mode ≠ .finish) :
    (p.absorb n input mode).Open (fed ++ input) out := by
  have full := (h.feed input).queueFull short
  cases mode with
  | more => exact full
  | flush =>
    exact (full.queueRest (Nat.lt_trans (size_held_queueFull positive _) short)).1
  | finish => exact absurd rfl goes

theorem Open.absorb_finish (h : p.Open fed out) (input : ByteArray) (positive : 0 < n)
    (short : n < 128) : (p.absorb n input .finish).Ending (fed ++ input) out := by
  have full := (h.feed input).queueFull short
  obtain ⟨rest, nothing⟩ := full.queueRest (Nat.lt_trans (size_held_queueFull positive _) short)
  exact rest.queueEnd nothing

theorem absorb_still (nothing : p.held = .empty) (positive : 0 < n) {mode : EndMode}
    (closed : mode = .finish → p.ended = true) : p.absorb n .empty mode = p := by
  have same : ({ p with held := p.held ++ .empty } : Packer) = p := by
    rw [ByteArray.append_empty]
  have full : p.queueFull n = p := by
    unfold Packer.queueFull
    rw [dif_neg]
    rw [nothing, ByteArray.size_empty]
    omega
  have rest : p.queueRest = p := if_pos (isEmpty_iff.mpr nothing)
  cases mode with
  | more =>
    change ({ p with held := p.held ++ .empty } : Packer).queueFull n = p
    rw [same, full]
  | flush =>
    change (({ p with held := p.held ++ .empty } : Packer).queueFull n).queueRest = p
    rw [same, full, rest]
  | finish =>
    have last : p.queueEnd = p := if_pos (closed rfl)
    change (({ p with held := p.held ++ .empty } : Packer).queueFull n).queueRest.queueEnd = p
    rw [same, full, rest, last]

theorem Ending.absorb_finish (h : p.Ending fed out) (positive : 0 < n) :
    p.absorb n .empty .finish = p :=
  absorb_still h.nothing positive fun _ => h.ended

theorem given_emit (p : Packer) (taken room : Nat) :
    (p.emit taken room).given ++ (p.emit taken room).state.queue = p.queue := by
  simp only [Packer.emit]
  exact extract_append_rest (Nat.min_le_left _ _)

theorem Open.emit (h : p.Open fed out) (taken room : Nat) :
    (p.emit taken room).state.Open fed (out ++ (p.emit taken room).given) := by
  obtain ⟨content, packed, all⟩ := h.packed
  rw [← given_emit p taken room, ← ByteArray.append_assoc] at packed
  exact ⟨by simp [Packer.emit, h.running], content, packed, all⟩

theorem Ending.emit (h : p.Ending fed out) {taken room : Nat}
    (pending : (p.emit taken room).state.queue ≠ .empty) :
    (p.emit taken room).state.Ending fed (out ++ (p.emit taken room).given) := by
  obtain ⟨body, packed, whole⟩ := h.packed
  rw [← given_emit p taken room, ← ByteArray.append_assoc] at whole
  refine ⟨?_, h.nothing, body, packed, whole⟩
  have more : (p.emit taken room).state.queue.isEmpty = false :=
    Bool.eq_false_iff.mpr (mt isEmpty_iff.mp pending)
  change (p.ended && !(p.emit taken room).state.queue.isEmpty) = true
  rw [h.ended, more]
  rfl

theorem Ending.emit_last (h : p.Ending fed out) {taken room : Nat}
    (done : (p.emit taken room).state.queue = .empty) :
    ∃ body, Packed body fed ∧ out ++ (p.emit taken room).given = body.push 0 := by
  obtain ⟨body, packed, whole⟩ := h.packed
  rw [← given_emit p taken room, done, ByteArray.append_empty] at whole
  exact ⟨body, packed, whole⟩

end Packer

/-- A step of the block compressor with a hint that only tells whether something is pending, so
that it is a hint whatever is queued. -/
def tell (n : Nat) (p : Packer) (unread : ByteArray) (room : Nat) (mode : EndMode) :
    Portion Packer :=
  let portion := p.run n unread room mode
  { portion with code := if portion.state.queue.isEmpty then 0 else 1 }

def tellingCompressor (n : Nat) : Compressor Packer := .ofSlices Echo.setParameter (tell n)

theorem run_fits (n : Nat) (p : Packer) (unread : ByteArray) (room : Nat) (mode : EndMode) :
    (p.run n unread room mode).Fits unread room := by
  refine ⟨Nat.le_refl _, ?_⟩
  simp only [Packer.run, Packer.emit, ByteArray.size_extract]
  omega

theorem tell_fits (n : Nat) (p : Packer) (unread : ByteArray) (room : Nat) (mode : EndMode) :
    (tell n p unread room mode).Fits unread room :=
  ⟨(run_fits n p unread room mode).taken_le, (run_fits n p unread room mode).given_le⟩

theorem tellingCompressor_obeys (n : Nat) : (tellingCompressor n).Obeys :=
  Compressor.obeys_ofSlices (tell_fits n)

section Run

variable {n size : Nat} {p : Packer} {fed out bytes : ByteArray} {input : InWindow}
  {output : OutWindow size} {mode : EndMode}

/-- A step absorbs what it is shown and emits what fits. -/
structure Told (n : Nat) (p : Packer) (input : InWindow) (output : OutWindow size)
    (mode : EndMode) (a : Answer Packer size) (e : Portion Packer) : Prop where
  taken : a.taken input = input.unread
  given : a.given output = e.given
  state : a.state = e.state
  code : a.code = if e.state.queue.isEmpty then 0 else 1

theorem told (n : Nat) (p : Packer) (input : InWindow) (mode : EndMode) (room : output.Inside) :
    Told n p input output mode ((tellingCompressor n).step p input output mode)
      ((p.absorb n input.unread mode).emit input.unread.size output.room) := by
  have step : (tellingCompressor n).step p input output mode =
      (tell n p input.unread output.room mode).over input output := rfl
  rw [step]
  constructor
  · rw [Portion.taken_over]
    exact ByteArray.extract_zero_size
  · exact (tell_fits n p input.unread output.room mode).given_over room
  · rfl
  · rw [Portion.code_over]
    unfold tell Packer.run
    rfl

theorem Told.queue_eq_empty_iff {a : Answer Packer size} {e : Portion Packer}
    (h : Told n p input output mode a e) : a.code = 0 ↔ e.state.queue = .empty := by
  rw [h.code]
  split
  · rename_i none
    exact ⟨fun _ => isEmpty_iff.mp none, fun _ => rfl⟩
  · rename_i some
    exact ⟨nofun, fun none => absurd (isEmpty_iff.mpr none) some⟩

/-- What is known of the compressor in an open frame and after its end. -/
def Holds (closing : Bool) (p : Packer) (fed out : ByteArray) : Prop :=
  if closing then p.Ending fed out else p.Open fed out

theorem Holds.absorb_finish {closing : Bool} (h : Holds closing p fed out) (positive : 0 < n)
    (short : n < 128) : (p.absorb n .empty .finish).Ending fed out := by
  cases closing with
  | false =>
    have opened : p.Open fed out := h
    have ending := opened.absorb_finish (n := n) .empty positive short
    rwa [ByteArray.append_empty] at ending
  | true =>
    have ending : p.Ending fed out := h
    rw [ending.absorb_finish positive]
    exact ending

theorem holds_streams {closing : Bool} (positive : 0 < n) (short : n < 128)
    (run : (tellingCompressor n).Streams {} closing fed out p) : Holds closing p fed out := by
  induction run with
  | fresh => exact ⟨rfl, .empty, Packed.empty, rfl⟩
  | @step fed out s size run input output mode inside room goes idle fine ih =>
    have step := told n s input mode room
    have opened : s.Open fed out := ih
    rw [step.taken, step.given, step.state]
    exact (opened.absorb input.unread positive short goes).emit _ _
  | @finish closing fed out s size run input output inside room idle fine pending ih =>
    have step := told n s input .finish room
    rw [InWindow.unread_eq_empty idle] at step
    rw [step.given, step.state]
    exact (ih.absorb_finish positive short).emit (mt step.queue_eq_empty_iff.mpr pending)

/-- A closed stream is blocks with the content fed, and an end. -/
theorem packed_closes (positive : 0 < n) (short : n < 128)
    (run : (tellingCompressor n).Closes {} fed bytes) :
    ∃ body, Packed body fed ∧ bytes = body.push 0 := by
  cases run with
  | @finish closing fed out s size run input output inside room idle done =>
    have step := told n s input .finish room
    rw [InWindow.unread_eq_empty idle] at step
    rw [step.given]
    have ending := (holds_streams positive short run).absorb_finish positive short
    exact ending.emit_last (step.queue_eq_empty_iff.mp done)

end Run

/-- The block codec gives back what it was fed, for every block size. -/
theorem roundTrips (n : Nat) (positive : 0 < n) (short : n < 128) :
    RoundTrips (tellingCompressor n) {} decompressor 0 where
  compressor_obeys := tellingCompressor_obeys n
  decompressor_obeys := decompressor_obeys
  decodes := by
    intro fed bytes run
    obtain ⟨body, packed, rfl⟩ := packed_closes positive short run
    exact ⟨_, _, decodes packed.lengths_end, packed.content_end, packed.frameEnd⟩

end Sluice.Blocks
