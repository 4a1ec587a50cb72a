import Sluice.Proofs.Stream.Yields

namespace Sluice

variable {τ : Type} {codec : Decompressor τ} {fresh s : τ}

namespace Source

variable {s s' : Source} {bytes shown : ByteArray} {k : Nat}

theorem Delivers.shows (h : s.Delivers bytes) (fill : s.fill = (.ok shown, s')) :
    s'.Shows bytes shown := by
  obtain ⟨other, source, fill', shows⟩ := fill_delivers h
  rw [fill] at fill'
  cases fill'
  exact shows

theorem Shows.eq_extract (shows : s.Shows (bytes.extract k bytes.size) shown) :
    shown = bytes.extract k (k + shown.size) := by
  obtain ⟨rest, split⟩ := shows.part
  have first : (bytes.extract k bytes.size).extract 0 shown.size = shown := by
    rw [split, ByteArray.extract_append_eq_left rfl]
  rw [ByteArray.extract_extract, Nat.add_zero, extract_min_size] at first
  exact first.symm

theorem Shows.delivers (shows : s.Shows (bytes.extract k bytes.size) shown) (le : k ≤ bytes.size)
    {n : Nat} (part : n ≤ shown.size) :
    (s.consume n).Delivers (bytes.extract (k + n) bytes.size) := by
  have later := shows.consumed n part
  rw [ByteArray.extract_extract, ByteArray.size_extract, Nat.min_self, Nat.add_sub_cancel' le,
    Nat.min_self] at later
  exact later

theorem Shows.le_size (shows : s.Shows (bytes.extract k bytes.size) shown) (le : k ≤ bytes.size) :
    k + shown.size ≤ bytes.size := by
  obtain ⟨rest, split⟩ := shows.part
  have sizes := congrArg ByteArray.size split
  rw [ByteArray.size_extract, ByteArray.size_append] at sizes
  omega

end Source

theorem OutWindow.room_whole (region : ByteArray) : (OutWindow.whole region).room = region.size :=
  Nat.sub_zero _

theorem OutWindow.room_whole_pos {region : ByteArray} (room : region ≠ .empty) :
    0 < (OutWindow.whole region).room := by
  rw [room_whole]
  exact Nat.pos_of_ne_zero (mt ByteArray.size_eq_zero_iff.mp room)

theorem InWindow.shows_of_part {shown bytes : ByteArray} {k : Nat}
    (part : shown = bytes.extract k (k + shown.size)) : InWindow.Shows ⟨shown, 0⟩ bytes k :=
  ⟨k + shown.size, ByteArray.extract_zero_size.trans part⟩

namespace Decompressor

variable {bytes content out : ByteArray} {source source' : Source} {k : Nat} {hint : Word}

section

variable (obeys : codec.Obeys) (s : τ) {shown buf : ByteArray}

include obeys

theorem Obeys.within_over : (codec.over s shown buf).Within ⟨shown, 0⟩ (.whole buf) :=
  obeys s ⟨shown, 0⟩ (.whole buf) (Nat.zero_le _) (OutWindow.whole_inside buf)

theorem Obeys.inPos_over_le : (codec.over s shown buf).inPos ≤ shown.size :=
  (obeys.within_over s).inPos_le

theorem Obeys.size_taken_over :
    ((codec.over s shown buf).taken ⟨shown, 0⟩).size = (codec.over s shown buf).inPos :=
  (obeys.within_over s).size_taken

theorem Obeys.size_given_over :
    ((codec.over s shown buf).given (.whole buf)).size = (codec.over s shown buf).output.pos :=
  (obeys.within_over s).size_given

end

/-- Runs of steps over the bytes in their order, as a reading may take them: the codec is shown any
part of what comes next, into any buffer, and nothing only at the end of the bytes while a frame is
open. No step failed, and each has moved something. -/
inductive Runs (codec : Decompressor τ) (fresh : τ) (bytes : ByteArray) :
    (k : Nat) → (out : ByteArray) → τ → (hint : Word) → Prop
  | fresh : Runs codec fresh bytes 0 .empty fresh 0
  | step {k : Nat} {out : ByteArray} {s : τ} {hint : Word}
    (run : Runs codec fresh bytes k out s hint)
    {shown buf : ByteArray} (part : shown = bytes.extract k (k + shown.size)) (room : buf ≠ .empty)
    (goes : shown = .empty → k = bytes.size ∧ hint ≠ 0)
    (fine : (codec.over s shown buf).code.isError = false)
    (moves : (codec.over s shown buf).inPos ≠ 0 ∨ (codec.over s shown buf).output.pos ≠ 0) :
    Runs codec fresh bytes (k + (codec.over s shown buf).inPos)
      (out ++ (codec.over s shown buf).given (.whole buf)) (codec.over s shown buf).state
      (codec.over s shown buf).code

/-- However the bytes are shown, the codec neither fails nor stalls. -/
def GoesOn (codec : Decompressor τ) (fresh : τ) (bytes : ByteArray) : Prop :=
  ∀ {k out s hint}, codec.Runs fresh bytes k out s hint → ∀ {shown buf : ByteArray},
    shown = bytes.extract k (k + shown.size) → buf ≠ .empty →
    (shown = .empty → k = bytes.size ∧ hint ≠ 0) →
      (codec.over s shown buf).code.isError = false ∧
        ((codec.over s shown buf).inPos ≠ 0 ∨ (codec.over s shown buf).output.pos ≠ 0)

/-- However the bytes are shown, the codec produces only so much. -/
def Bounded (codec : Decompressor τ) (fresh : τ) (bytes : ByteArray) : Prop :=
  ∃ most, ∀ {k out s hint}, codec.Runs fresh bytes k out s hint → out.size ≤ most

/-- However the bytes are shown, the codec does not come to their end with no frame open. -/
structure Rejects (codec : Decompressor τ) (fresh : τ) (bytes : ByteArray) : Prop where
  ends : ∀ {out s}, ¬codec.Runs fresh bytes bytes.size out s 0
  bounded : codec.Bounded fresh bytes

/-- The codec has run over the first `k` bytes, and the source delivers the rest. -/
structure Stands (codec : Decompressor τ) (fresh : τ) (bytes : ByteArray) (source : Source)
    (k : Nat) (out : ByteArray) (s : τ) (hint : Word) : Prop where
  run : codec.Runs fresh bytes k out s hint
  source : source.Delivers (bytes.extract k bytes.size)
  le : k ≤ bytes.size

theorem Stands.start (delivers : source.Delivers bytes) :
    codec.Stands fresh bytes source 0 .empty fresh 0 := by
  have whole : bytes.extract 0 bytes.size = bytes := ByteArray.extract_zero_size
  exact ⟨.fresh, whole.symm ▸ delivers, Nat.zero_le _⟩

section

variable (h : codec.Stands fresh bytes source k out s hint) {shown buf : ByteArray}
  (fill : source.fill = (.ok shown, source'))

include h fill

theorem Stands.eq_size (dry : shown = .empty) : k = bytes.size := by
  have none := congrArg ByteArray.size ((h.source.shows fill).ends dry)
  have le := h.le
  rw [ByteArray.size_extract, ByteArray.size_empty] at none
  omega

theorem Stands.step (obeys : codec.Obeys) (room : buf ≠ .empty) (goes : shown = .empty → hint ≠ 0)
    (fine : (codec.over s shown buf).code.isError = false)
    (moves : (codec.over s shown buf).inPos ≠ 0 ∨ (codec.over s shown buf).output.pos ≠ 0) :
    codec.Stands fresh bytes (source'.consume (codec.over s shown buf).inPos)
      (k + (codec.over s shown buf).inPos) (out ++ (codec.over s shown buf).given (.whole buf))
      (codec.over s shown buf).state (codec.over s shown buf).code := by
  have shows := h.source.shows fill
  have inPos : (codec.over s shown buf).inPos ≤ shown.size := obeys.inPos_over_le s
  have inside := shows.le_size h.le
  have next := h.run.step shows.eq_extract room (fun dry => ⟨h.eq_size fill dry, goes dry⟩) fine
    moves
  exact ⟨next, shows.delivers h.le inPos, by omega⟩

end

/-- A codec that produces only so much is read to an end: a clean one at the end of the bytes, or
where it does not go on. -/
theorem Stands.reads (h : codec.Stands fresh bytes source k out s hint)
    (bounded : codec.Bounded fresh bytes) (obeys : codec.Obeys) {buf : ByteArray}
    (room : buf ≠ .empty) :
    ∃ rest ended, codec.Reads source s hint buf rest ended ∧
      (ended = .ok () → ∃ s', codec.Runs fresh bytes bytes.size (out ++ rest) s' 0) ∧
      (codec.GoesOn fresh bytes → ended = .ok ()) := by
  obtain ⟨most, bound⟩ := bounded
  -- every step leaves less to consume, or less to produce
  induction hn : (bytes.size - k) + (most - out.size) using Nat.strongRecOn
    generalizing source k out s hint buf with
  | ind n less =>
    obtain ⟨shown, source', fill, shows⟩ := Source.fill_delivers h.source
    by_cases last : shown = .empty ∧ hint = 0
    · obtain ⟨rfl, rfl⟩ := last
      obtain rfl := h.eq_size fill rfl
      refine ⟨.empty, .ok (), .ended fill, fun _ => ⟨s, ?_⟩, fun _ => rfl⟩
      rw [ByteArray.append_empty]
      exact h.run
    · have goes : shown = .empty → hint ≠ 0 := fun dry zero => last ⟨dry, zero⟩
      have step (goesOn : codec.GoesOn fresh bytes) := goesOn h.run shows.eq_extract room
        fun dry => ⟨h.eq_size fill dry, goes dry⟩
      have given : ((codec.over s shown buf).given (.whole buf)).size = _ := obeys.size_given_over s
      cases fine : (codec.over s shown buf).code.isError with
      | true =>
        refine ⟨.empty, _, .failed fill goes fine, nofun, fun goesOn => ?_⟩
        cases (step goesOn).1.symm.trans fine
      | false =>
        by_cases gives : (codec.over s shown buf).output.pos = 0
        · by_cases takes : (codec.over s shown buf).inPos = 0
          · have stops (goesOn : codec.GoesOn fresh bytes) : False :=
              (step goesOn).2.elim (absurd takes) (absurd gives)
            by_cases dry : shown = .empty
            · subst dry
              exact ⟨.empty, _, .truncated fill (goes rfl) fine gives, nofun,
                fun goesOn => (stops goesOn).elim⟩
            · exact ⟨.empty, _, .stalled fill dry fine gives takes, nofun,
                fun goesOn => (stops goesOn).elim⟩
          · have next := h.step fill obeys room goes fine (.inl takes)
            have some : shown ≠ .empty := by
              rintro rfl
              exact takes (Nat.le_zero.mp (obeys.inPos_over_le s))
            have silent := ByteArray.size_eq_zero_iff.mp (given.trans gives)
            have nonempty : (codec.over s shown buf).output.dst ≠ .empty :=
              DecompressReader.output_ne_empty (r := { source, session := s }) room
            have le := next.le
            rw [silent, ByteArray.append_empty] at next
            obtain ⟨rest, ended, reads, ends⟩ := less _ (by omega) next nonempty rfl
            exact ⟨rest, ended, .consumed fill some fine gives takes reads, ends⟩
        · have next := h.step fill obeys room goes fine (.inr gives)
          have fewer := bound next.run
          have le := next.le
          rw [ByteArray.size_append] at fewer
          obtain ⟨rest, ended, reads, ends, well⟩ := less
            ((bytes.size - (k + (codec.over s shown buf).inPos)) +
              (most - (out ++ (codec.over s shown buf).given (.whole buf)).size))
            (by rw [ByteArray.size_append]; omega) next block_ne_empty rfl
          rw [ByteArray.append_assoc] at ends
          exact ⟨_, ended, .produced fill goes fine gives reads, ends, well⟩

/-- What is rejected fails, however the source cuts it. -/
theorem Rejects.fails (rejects : codec.Rejects fresh bytes) (obeys : codec.Obeys)
    (delivers : source.Delivers bytes) : ∃ f, codec.Fails source fresh f := by
  obtain ⟨rest, ended, reads, ends, -⟩ :=
    (Stands.start delivers).reads rejects.bounded obeys block_ne_empty
  cases ended with
  | error f => exact ⟨f, rest, reads⟩
  | ok u =>
    obtain ⟨s', run⟩ := ends rfl
    exact (rejects.ends run).elim

section

variable {stream : Frames} (decodes : codec.Decodes fresh stream)

include decodes

theorem Decodes.over (fed : codec.Fed fresh stream.bytes k out s) {shown : ByteArray}
    (part : shown = stream.bytes.extract k (k + shown.size)) (buf : ByteArray) :
    (codec.over s shown buf).Decoding ⟨shown, 0⟩ (.whole buf) stream k out :=
  decodes.step fed ⟨shown, 0⟩ (.whole buf) (Nat.zero_le _) (OutWindow.whole_inside buf)
    (InWindow.shows_of_part part)

/-- A stream that is decoded through windows of any sizes is at a clean end in every run alike. -/
theorem Decodes.runs (obeys : codec.Obeys) (run : codec.Runs fresh stream.bytes k out s hint) :
    codec.Fed fresh stream.bytes k out s ∧ k ≤ stream.bytes.size ∧
      (hint = 0 ↔ stream.Clean k ∧ out = stream.content k) := by
  induction run with
  | fresh =>
    exact ⟨.fresh, Nat.zero_le _, fun _ => ⟨.inl rfl, decodes.empty.symm⟩, fun _ => rfl⟩
  | @step k out s hint run shown buf part room goes fine moves ih =>
    obtain ⟨fed, le, closed⟩ := ih
    have next := fed.step ⟨shown, 0⟩ (.whole buf) (Nat.zero_le _) (OutWindow.whole_inside buf)
      (InWindow.shows_of_part part)
    have code := (decodes.over fed part buf).code_eq_zero_iff decodes.empty
      (OutWindow.room_whole_pos room) fun left =>
        mt closed.mpr (goes (ByteArray.size_eq_zero_iff.mp left)).2
    have inPos : (codec.over s shown buf).inPos ≤ shown.size := obeys.inPos_over_le s
    have inside := congrArg ByteArray.size part
    rw [ByteArray.size_extract] at inside
    rw [obeys.size_taken_over] at next code
    exact ⟨next, by omega, code⟩

theorem Decodes.bounded (obeys : codec.Obeys) : codec.Bounded fresh stream.bytes := by
  refine ⟨(stream.content stream.bytes.size).size, ?_⟩
  intro k out s hint run
  obtain ⟨fed, le, -⟩ := decodes.runs obeys run
  obtain ⟨rest, all⟩ := decodes.delivered_le obeys fed le (Nat.le_refl _)
  rw [all, ByteArray.size_append]
  exact Nat.le_add_right _ _

/-- A stream that ends inside a frame is not accepted, whatever of its content was decoded. -/
theorem Decodes.rejects (obeys : codec.Obeys) (cut : ¬stream.Clean stream.bytes.size) :
    codec.Rejects fresh stream.bytes := by
  refine ⟨?_, decodes.bounded obeys⟩
  intro out s run
  exact cut ((decodes.runs obeys run).2.2.mp rfl).1

end

end Decompressor

end Sluice
