import Sluice.Proofs.Codec.Contract

namespace Sluice

variable {σ τ : Type}

/-- Runs of compressor steps without errors, from a fresh session to a session that consumed `fed`
and produced `out`. Input is given to `more` steps only. Once a `finish` step left something
pending, the run is `closing`, and only `finish` steps may follow. -/
inductive Compressor.Streams (codec : Compressor σ) (fresh : σ) :
    (closing : Bool) → (fed out : ByteArray) → σ → Prop
  | fresh : Streams codec fresh false .empty .empty fresh
  | step {fed out : ByteArray} {s : σ} {size : Nat} (run : Streams codec fresh false fed out s)
    (input : InWindow) (output : OutWindow size) (mode : EndMode) (inside : input.Inside)
    (room : output.Inside) (goes : mode ≠ .finish) (idle : mode = .more ∨ input.left = 0)
    (fine : (codec.step s input output mode).code.isError = false) :
    Streams codec fresh false (fed ++ (codec.step s input output mode).taken input)
      (out ++ (codec.step s input output mode).given output)
      (codec.step s input output mode).state
  | finish {closing : Bool} {fed out : ByteArray} {s : σ} {size : Nat}
    (run : Streams codec fresh closing fed out s) (input : InWindow) (output : OutWindow size)
    (inside : input.Inside) (room : output.Inside) (idle : input.left = 0)
    (fine : (codec.step s input output .finish).code.isError = false)
    (pending : (codec.step s input output .finish).code ≠ 0) :
    Streams codec fresh true fed (out ++ (codec.step s input output .finish).given output)
      (codec.step s input output .finish).state

/-- Such a run ends with the first `finish` step that leaves nothing pending. It turned `fed` into
`stream`. -/
inductive Compressor.Closes (codec : Compressor σ) (fresh : σ) : (fed stream : ByteArray) → Prop
  | finish {closing : Bool} {fed out : ByteArray} {s : σ} {size : Nat}
    (run : codec.Streams fresh closing fed out s) (input : InWindow) (output : OutWindow size)
    (inside : input.Inside) (room : output.Inside) (idle : input.left = 0)
    (done : (codec.step s input output .finish).code = 0) :
    Closes codec fresh fed (out ++ (codec.step s input output .finish).given output)

def InWindow.Shows (input : InWindow) (stream : ByteArray) (k : Nat) : Prop :=
  ∃ stop, input.unread = stream.extract k stop

/-- Runs of decompressor steps from a fresh session, over a stream fed in order through windows of
any sizes, to a session that consumed `k` bytes and produced `out`. -/
inductive Decompressor.Fed (codec : Decompressor τ) (fresh : τ) (stream : ByteArray) :
    (k : Nat) → (out : ByteArray) → τ → Prop
  | fresh : Fed codec fresh stream 0 .empty fresh
  | step {k : Nat} {out : ByteArray} {s : τ} {size : Nat} (run : Fed codec fresh stream k out s)
    (input : InWindow) (output : OutWindow size) (inside : input.Inside) (room : output.Inside)
    (shows : input.Shows stream k) :
    Fed codec fresh stream (k + ((codec.step s input output).taken input).size)
      (out ++ (codec.step s input output).given output) (codec.step s input output).state

/-- A stream of frames and what it means. -/
structure Frames where
  bytes : ByteArray
  /-- The content of the first `k` bytes. -/
  content : Nat → ByteArray
  /-- A frame ends after `k` bytes. -/
  FrameEnd : Nat → Prop

def Frames.Clean (stream : Frames) (k : Nat) : Prop := k = 0 ∨ stream.FrameEnd k

/-- A step over a stream as a decoder owes it, from a state that consumed `k` bytes and produced
`out`. It answers 0 where a frame ends and is delivered in full; a step that moves nothing need
not answer 0 again. -/
structure Answer.Decoding {size : Nat} (a : Answer τ size) (input : InWindow)
    (output : OutWindow size) (stream : Frames) (k : Nat) (out : ByteArray) : Prop where
  fine : a.code.isError = false
  delivers : ∃ rest,
    stream.content (k + (a.taken input).size) = out ++ a.given output ++ rest
  moves : 0 < output.room → input.left ≠ 0 ∨ out ≠ stream.content k →
    0 < (a.taken input).size + (a.given output).size
  done : a.code = 0 → stream.FrameEnd (k + (a.taken input).size) ∧
    out ++ a.given output = stream.content (k + (a.taken input).size)
  ended : 0 < (a.taken input).size + (a.given output).size →
    stream.FrameEnd (k + (a.taken input).size) →
    out ++ a.given output = stream.content (k + (a.taken input).size) → a.code = 0

/-- Unless it had nothing to do, the step answers 0 exactly where no frame is left open. -/
theorem Answer.Decoding.code_eq_zero_iff {size : Nat} {a : Answer τ size} {input : InWindow}
    {output : OutWindow size} {stream : Frames} {k : Nat} {out : ByteArray}
    (h : a.Decoding input output stream k out) (empty : stream.content 0 = .empty)
    (room : 0 < output.room)
    (goes : input.left = 0 → ¬(stream.Clean k ∧ out = stream.content k)) :
    a.code = 0 ↔ stream.Clean (k + (a.taken input).size) ∧
      out ++ a.given output = stream.content (k + (a.taken input).size) := by
  constructor
  · intro zero
    obtain ⟨ends, all⟩ := h.done zero
    exact ⟨.inr ends, all⟩
  · rintro ⟨clean, all⟩
    by_cases moved : 0 < (a.taken input).size + (a.given output).size
    · rcases clean with start | ends
      · rw [start, empty, ByteArray.append_eq_empty_iff] at all
        rw [all.2, ByteArray.size_empty] at moved
        omega
      · exact h.ended moved ends all
    · have still : (a.taken input).size = 0 := by omega
      have silent : a.given output = .empty := ByteArray.size_eq_zero_iff.mp (by omega)
      rw [still, Nat.add_zero] at clean all
      rw [silent, ByteArray.append_empty] at all
      have nothing : input.left = 0 := by
        by_cases left : input.left = 0
        · exact left
        · exact absurd (h.moves room (.inl left)) moved
      exact absurd ⟨clean, all⟩ (goes nothing)

/-- The decompressor decodes the stream through windows of any sizes. -/
structure Decompressor.Decodes (codec : Decompressor τ) (fresh : τ) (stream : Frames) : Prop where
  empty : stream.content 0 = .empty
  step : ∀ {k : Nat} {out : ByteArray} {s : τ} {size : Nat},
    codec.Fed fresh stream.bytes k out s → ∀ (input : InWindow) (output : OutWindow size),
      input.Inside → output.Inside → input.Shows stream.bytes k →
      (codec.step s input output).Decoding input output stream k out

/-- Two codecs fit together: both keep the contract of a step, and what one closed, the other
decodes, with a frame end at the end of the stream. -/
structure RoundTrips (compressor : Compressor σ) (s : σ) (decompressor : Decompressor τ) (d : τ) :
    Prop where
  compressor_obeys : compressor.Obeys
  decompressor_obeys : decompressor.Obeys
  decodes : ∀ fed bytes, compressor.Closes s fed bytes →
    ∃ content FrameEnd, decompressor.Decodes d ⟨bytes, content, FrameEnd⟩ ∧
      content bytes.size = fed ∧ FrameEnd bytes.size

namespace Decompressor

variable {codec : Decompressor τ} {fresh s : τ} {stream : Frames} {k : Nat} {out : ByteArray}

theorem Decodes.delivered (h : codec.Decodes fresh stream)
    (run : codec.Fed fresh stream.bytes k out s) : ∃ rest, stream.content k = out ++ rest := by
  cases run with
  | fresh => exact ⟨.empty, by simpa using h.empty⟩
  | step run input output inside room shows =>
    exact (h.step run input output inside room shows).delivers

theorem Obeys.size_taken_le (obeys : codec.Obeys) {size : Nat} (s : τ) (input : InWindow)
    (output : OutWindow size) (inside : input.Inside) (room : output.Inside) :
    ((codec.step s input output).taken input).size ≤ input.left := by
  have within := obeys s input output inside room
  have := within.inPos_le
  rw [within.size_taken]
  unfold InWindow.left
  omega

/-- One more step with room for one byte, over the bytes up to `stop`. -/
theorem Decodes.advance (h : codec.Decodes fresh stream) (obeys : codec.Obeys)
    (run : codec.Fed fresh stream.bytes k out s) {stop : Nat} (less : k < stop)
    (inside : stop ≤ stream.bytes.size) :
    ∃ taken given s', 0 < taken + given.size ∧ k + taken ≤ stop ∧
      codec.Fed fresh stream.bytes (k + taken) (out ++ given) s' := by
  let input : InWindow := ⟨stream.bytes.extract k stop, 0⟩
  let output : OutWindow 1 := .whole ⟨#[0]⟩
  have left : input.left = stop - k := by
    change (stream.bytes.extract k stop).size - 0 = _
    rw [ByteArray.size_extract]
    omega
  have room := OutWindow.whole_inside ⟨#[0]⟩
  have shows : input.Shows stream.bytes k := ⟨stop, ByteArray.extract_zero_size⟩
  have step := h.step run input output (Nat.zero_le _) room shows
  have taken := obeys.size_taken_le s input output (Nat.zero_le _) room
  have next := Fed.step run input output (Nat.zero_le _) room shows
  exact ⟨_, _, _, step.moves Nat.one_pos (.inl (by omega)), by omega, next⟩

theorem Decodes.delivered_le (h : codec.Decodes fresh stream) (obeys : codec.Obeys)
    (run : codec.Fed fresh stream.bytes k out s) {stop : Nat} (le : k ≤ stop)
    (inside : stop ≤ stream.bytes.size) : ∃ rest, stream.content stop = out ++ rest := by
  -- Every step brings the run closer to `stop`, or to all that the bytes consumed mean.
  induction hn : stop - k using Nat.strongRecOn generalizing k out s with
  | ind n nearer =>
    induction hm : (stream.content k).size - out.size using Nat.strongRecOn generalizing out s with
    | ind m fuller =>
      rcases Nat.eq_or_lt_of_le le with rfl | less
      · exact h.delivered run
      · obtain ⟨taken, given, s', moved, le', next⟩ := h.advance obeys run less inside
        have further : ∃ rest, stream.content stop = out ++ given ++ rest := by
          by_cases still : taken = 0
          · subst still
            obtain ⟨more, sofar⟩ := h.delivered next
            have sizes := congrArg ByteArray.size sofar
            rw [Nat.add_zero] at sizes
            simp only [ByteArray.size_append] at sizes
            refine fuller _ ?_ next rfl
            rw [ByteArray.size_append]
            omega
          · exact nearer (stop - (k + taken)) (by omega) next le' rfl
        obtain ⟨rest, all⟩ := further
        exact ⟨given ++ rest, all.trans ByteArray.append_assoc⟩

end Decompressor

end Sluice
