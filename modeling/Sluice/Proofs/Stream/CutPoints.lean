import Mathlib
import Sluice.Proofs.Stream.Reads
import Sluice.Proofs.Codec.Unpacking

namespace Sluice

/-- What a read into `buf` may answer once `before` was returned: nothing if there is no room,
more of the content if some is left, and else what the end of the bytes means. -/
structure Frames.Answers (stream : Frames) (stop : Nat) (before buf : ByteArray)
    (answer : Except Failure ByteArray) : Prop where
  idle : buf = .empty → answer = .ok .empty
  more : buf ≠ .empty → before ≠ stream.content stop → ∃ piece, piece ≠ .empty ∧ answer = .ok piece
  clean : buf ≠ .empty → before = stream.content stop → stream.Clean stop → answer = .ok .empty
  cut : buf ≠ .empty → before = stream.content stop → ¬stream.Clean stop →
    answer = .error .truncated

namespace Frames.Answers

variable {stream : Frames} {stop : Nat} {before buf : ByteArray}

theorem of_idle : stream.Answers stop before .empty (.ok .empty) :=
  ⟨fun _ => rfl, fun room => absurd rfl room, fun room => absurd rfl room,
    fun room => absurd rfl room⟩

theorem of_more (room : buf ≠ .empty) (short : before ≠ stream.content stop) {piece : ByteArray}
    (nonempty : piece ≠ .empty) : stream.Answers stop before buf (.ok piece) :=
  ⟨fun none => absurd none room, fun _ _ => ⟨piece, nonempty, rfl⟩, fun _ all => absurd all short,
    fun _ all => absurd all short⟩

theorem of_clean (room : buf ≠ .empty) (all : before = stream.content stop)
    (clean : stream.Clean stop) : stream.Answers stop before buf (.ok .empty) :=
  ⟨fun none => absurd none room, fun _ more => absurd all more, fun _ _ _ => rfl,
    fun _ _ cut => absurd clean cut⟩

theorem of_cut (room : buf ≠ .empty) (all : before = stream.content stop)
    (cut : ¬stream.Clean stop) : stream.Answers stop before buf (.error .truncated) :=
  ⟨fun none => absurd none room, fun _ more => absurd all more,
    fun _ _ clean => absurd clean cut, fun _ _ _ => rfl⟩

end Frames.Answers

namespace DecompressReader

variable {τ : Type} {codec : Decompressor τ} {fresh : τ} {stream : Frames} {stop : Nat}
  {r : DecompressReader τ} {k : Nat} {out : ByteArray}

def returned (answers : List (Except Failure ByteArray)) : ByteArray :=
  joined (answers.filterMap Except.toOption)

@[simp] theorem returned_nil : returned [] = .empty := rfl

theorem returned_cons (answer : Except Failure ByteArray)
    (answers : List (Except Failure ByteArray)) :
    returned (answer :: answers) = returned [answer] ++ returned answers := by
  cases answer with
  | ok piece =>
    change piece ++ returned answers = piece ++ .empty ++ returned answers
    rw [ByteArray.append_empty]
  | error f => exact ByteArray.empty_append.symm

theorem returned_append (before after : List (Except Failure ByteArray)) :
    returned (before ++ after) = returned before ++ returned after := by
  unfold returned
  rw [List.filterMap_append, joined_append]

@[simp] theorem returned_ok (piece : ByteArray) : returned [.ok piece] = piece :=
  ByteArray.append_empty

@[simp] theorem returned_error (f : Failure) : returned [.error f] = .empty := rfl

theorem read_empty (codec : Decompressor τ) (r : DecompressReader τ) :
    (r.read codec .empty).value = (.ok .empty, r) := rfl

/-- Buffers with the answers they got, where `out` was returned before. -/
structure Transcript (stream : Frames) (stop : Nat) (out : ByteArray)
    (log : List (ByteArray × Except Failure ByteArray)) : Prop where
  part : ∃ rest, stream.content stop = out ++ returned (log.map Prod.snd) ++ rest
  each : ∀ before buf answer after, log = before ++ (buf, answer) :: after →
    stream.Answers stop (out ++ returned (before.map Prod.snd)) buf answer

theorem Transcript.nil (part : ∃ rest, stream.content stop = out ++ rest) :
    Transcript stream stop out [] := by
  refine ⟨by simpa using part, fun before buf answer after split => ?_⟩
  simp at split

theorem Transcript.cons {buf : ByteArray} {answer : Except Failure ByteArray}
    {log : List (ByteArray × Except Failure ByteArray)} (first : stream.Answers stop out buf answer)
    (rest : Transcript stream stop (out ++ returned [answer]) log) :
    Transcript stream stop out ((buf, answer) :: log) := by
  refine ⟨?_, fun before b a after split => ?_⟩
  · rw [List.map_cons, returned_cons, ← ByteArray.append_assoc]
    exact rest.part
  · cases before with
    | nil =>
      cases split
      simpa using first
    | cons p before =>
      cases split
      rw [List.map_cons, returned_cons, ← ByteArray.append_assoc]
      exact rest.each before b a after rfl

/-- Once everything up to `stop` is consumed and returned, it stays so. -/
theorem Reading.stays (h : Reading codec fresh stream stop r stop out) (obeys : codec.Obeys)
    (decodes : codec.Decodes fresh stream) (inside : stop ≤ stream.bytes.size)
    (all : out = stream.content stop) (bufs : List ByteArray) :
    Reading codec fresh stream stop (r.readAll codec bufs).2 stop out := by
  induction bufs generalizing r with
  | nil => exact h
  | cons buf bufs ih =>
    by_cases room : buf = .empty
    · subst room
      rw [readAll_cons (read_empty codec r)]
      exact ih h
    · have first := h.answered_read obeys decodes inside room
      generalize hr : (r.read codec buf).value = answer at first
      cases first with
      | @piece piece k' r' nonempty later =>
        obtain ⟨rest, part⟩ := decodes.delivered_le obeys later.run later.le inside
        exact absurd all (ne_content_of_piece nonempty part)
      | ended _ _ last =>
        rw [readAll_cons hr]
        exact ih last
      | truncated _ _ last =>
        rw [readAll_cons hr]
        exact ih last

/-- Some read into a buffer with room was made when everything had been returned. -/
def Ended (stream : Frames) (stop : Nat) (out : ByteArray)
    (log : List (ByteArray × Except Failure ByteArray)) : Prop :=
  ∃ before buf answer after, log = before ++ (buf, answer) :: after ∧ buf ≠ .empty ∧
    out ++ returned (before.map Prod.snd) = stream.content stop

theorem Ended.of_cons {buf : ByteArray} {answer : Except Failure ByteArray}
    {log : List (ByteArray × Except Failure ByteArray)}
    (h : Ended stream stop out ((buf, answer) :: log)) :
    buf ≠ .empty ∧ out = stream.content stop ∨
      Ended stream stop (out ++ returned [answer]) log := by
  obtain ⟨before, b, a, after, split, room, all⟩ := h
  cases before with
  | nil =>
    cases split
    exact .inl ⟨room, by simpa using all⟩
  | cons p before =>
    cases split
    rw [List.map_cons, returned_cons, ← ByteArray.append_assoc] at all
    exact .inr ⟨before, b, a, after, rfl, room, all⟩

theorem Transcript.uncons {buf : ByteArray} {answer : Except Failure ByteArray}
    {log : List (ByteArray × Except Failure ByteArray)}
    (h : Transcript stream stop out ((buf, answer) :: log)) :
    stream.Answers stop out buf answer ∧
      Transcript stream stop (out ++ returned [answer]) log := by
  refine ⟨by simpa using h.each [] buf answer log rfl, ?_, fun before b a after split => ?_⟩
  · have := h.part
    rwa [List.map_cons, returned_cons, ← ByteArray.append_assoc] at this
  · have := h.each ((buf, answer) :: before) b a after (by rw [split]; rfl)
    rwa [List.map_cons, returned_cons, ← ByteArray.append_assoc] at this

theorem Transcript.whole {log : List (ByteArray × Except Failure ByteArray)}
    (h : Transcript stream stop out log) (reached : Ended stream stop out log) :
    out ++ returned (log.map Prod.snd) = stream.content stop := by
  obtain ⟨before, buf, answer, after, split, -, all⟩ := reached
  obtain ⟨rest, part⟩ := h.part
  rw [split, List.map_append, returned_append, ← ByteArray.append_assoc, all] at part ⊢
  have sizes := congrArg ByteArray.size part
  simp only [ByteArray.size_append] at sizes
  have none : returned (((buf, answer) :: after).map Prod.snd) = .empty :=
    ByteArray.size_eq_zero_iff.mp (by omega)
  rw [none, ByteArray.append_empty]

/-- Before the end, every read into a buffer with room returns a byte at least. -/
theorem Transcript.countP_le {log : List (ByteArray × Except Failure ByteArray)}
    (h : Transcript stream stop out log) (going : ¬Ended stream stop out log) :
    log.countP (·.1 ≠ .empty) ≤ (returned (log.map Prod.snd)).size := by
  induction log generalizing out with
  | nil => exact Nat.zero_le _
  | cons p log ih =>
    obtain ⟨buf, answer⟩ := p
    obtain ⟨first, rest⟩ := h.uncons
    have later := ih rest fun ⟨before, b, a, after, split, room, all⟩ => going
      ⟨(buf, answer) :: before, b, a, after, by rw [split]; rfl, room, by
        rw [List.map_cons, returned_cons, ← ByteArray.append_assoc, all]⟩
    rw [List.map_cons, returned_cons, ByteArray.size_append, List.countP_cons]
    by_cases room : buf = .empty
    · have idle : decide (buf ≠ .empty) = false := by simp [room]
      rw [idle, if_neg (by decide)]
      exact Nat.le_trans later (Nat.le_add_left _ _)
    · have short : out ≠ stream.content stop := fun all =>
        going ⟨[], buf, answer, log, rfl, room, by simpa using all⟩
      obtain ⟨piece, nonempty, rfl⟩ := first.more room short
      have some : piece.size ≠ 0 := fun zero => nonempty (ByteArray.size_eq_zero_iff.mp zero)
      rw [returned_ok]
      split
      · omega
      · omega

theorem Reading.transcript (h : Reading codec fresh stream stop r k out) (obeys : codec.Obeys)
    (decodes : codec.Decodes fresh stream) (inside : stop ≤ stream.bytes.size)
    (bufs : List ByteArray) :
    (r.readAll codec bufs).1.length = bufs.length ∧
      Transcript stream stop out (bufs.zip (r.readAll codec bufs).1) ∧
      (Ended stream stop out (bufs.zip (r.readAll codec bufs).1) →
        Reading codec fresh stream stop (r.readAll codec bufs).2 stop (stream.content stop)) := by
  -- On the reads that are left; the first that answers with the end hands over to `stays`.
  induction bufs generalizing r k out with
  | nil =>
    refine ⟨rfl, .nil (decodes.delivered_le obeys h.run h.le inside), ?_⟩
    rintro ⟨before, buf, answer, after, split, -⟩
    simp [readAll] at split
  | cons buf bufs ih =>
    by_cases room : buf = .empty
    · subst room
      rw [readAll_cons (read_empty codec r)]
      obtain ⟨length, transcript, ended⟩ := ih h
      have same : out ++ returned [.ok .empty] = out := by simp
      refine ⟨congrArg (· + 1) length, .cons .of_idle (same.symm ▸ transcript), fun reached => ?_⟩
      rcases reached.of_cons with ⟨room, -⟩ | later
      · exact absurd rfl room
      · exact ended (same ▸ later)
    · have first := h.answered_read obeys decodes inside room
      generalize hr : (r.read codec buf).value = answer at first
      cases first with
      | @piece piece k' r' nonempty later =>
        rw [readAll_cons hr]
        obtain ⟨length, transcript, ended⟩ := ih later
        obtain ⟨rest, part⟩ := decodes.delivered_le obeys later.run later.le inside
        have short : out ≠ stream.content stop := ne_content_of_piece nonempty part
        have next : out ++ returned [.ok piece] = out ++ piece := by simp
        refine ⟨congrArg (· + 1) length,
          .cons (.of_more room short nonempty) (next.symm ▸ transcript), fun reached => ?_⟩
        rcases reached.of_cons with ⟨-, all⟩ | later
        · exact absurd all short
        · exact ended (next ▸ later)
      | @ended r' clean all last =>
        rw [readAll_cons hr]
        obtain ⟨length, transcript, -⟩ := ih last
        have same : out ++ returned [.ok .empty] = out := by simp
        refine ⟨congrArg (· + 1) length,
          .cons (.of_clean room all clean) (same.symm ▸ transcript), fun _ => ?_⟩
        exact all ▸ last.stays obeys decodes inside all bufs
      | @truncated r' cut all last =>
        rw [readAll_cons hr]
        obtain ⟨length, transcript, -⟩ := ih last
        have same : out ++ returned [.error .truncated] = out := by simp
        refine ⟨congrArg (· + 1) length,
          .cons (.of_cut room all cut) (same.symm ▸ transcript), fun _ => ?_⟩
        exact all ▸ last.stays obeys decodes inside all bufs

/-- The reads returned everything up to `stop`, and the reader has consumed it. -/
structure Finished (stream : Frames) (stop : Nat) (answers : List (Except Failure ByteArray))
    (r : DecompressReader τ) : Prop where
  whole : returned answers = stream.content stop
  boundary : r.atFrameBoundary = true ↔ stream.Clean stop
  totalIn : r.totalIn = stop
  totalOut : r.totalOut = (stream.content stop).size

theorem Reading.finished
    (h : Reading codec fresh stream stop r stop (stream.content stop))
    {answers : List (Except Failure ByteArray)} (whole : returned answers = stream.content stop) :
    Finished stream stop answers r := by
  refine ⟨whole, ?_, h.totalIn, h.totalOut⟩
  have pending := h.pending
  simp only [and_true] at pending
  simpa [atFrameBoundary] using pending

/-- Reading the bytes up to `stop` from any chunks, into any buffers: what is returned is the
content of those bytes in order, and after it the end is told from a cut. It takes at most one
read with room for each byte of the content and one more. -/
theorem reads_to_cut (codec : Decompressor τ) (fresh : τ) (stream : Frames)
    (obeys : codec.Obeys) (decodes : codec.Decodes fresh stream) (stop : Nat)
    (inside : stop ≤ stream.bytes.size) (chunks : List ByteArray)
    (cut : joined chunks = stream.bytes.extract 0 stop) (bufs : List ByteArray) :
    let reader : DecompressReader τ := { source := .ofChunks chunks, session := fresh }
    let (answers, last) := reader.readAll codec bufs
    answers.length = bufs.length ∧
      (∃ rest, stream.content stop = returned answers ++ rest) ∧
      (∀ before buf answer after, bufs.zip answers = before ++ (buf, answer) :: after →
        stream.Answers stop (returned (before.map Prod.snd)) buf answer ∧
          (buf ≠ .empty → returned (before.map Prod.snd) = stream.content stop →
            Finished stream stop answers last)) ∧
      ((stream.content stop).size < bufs.countP (· ≠ .empty) →
        Finished stream stop answers last) ∧
      ∀ r : DecompressReader τ, (r.read codec .empty).value = (.ok .empty, r) := by
  intro reader
  have start : Reading codec fresh stream stop reader 0 .empty := .start decodes cut
  obtain ⟨length, transcript, ended⟩ := start.transcript obeys decodes inside bufs
  generalize reader.readAll codec bufs = run at length transcript ended ⊢
  obtain ⟨answers, last⟩ := run
  dsimp only at length transcript ended ⊢
  have all : (bufs.zip answers).map Prod.snd = answers :=
    List.map_snd_zip (Nat.le_of_eq length)
  have part := transcript.part
  rw [all, ByteArray.empty_append] at part
  have finished : Ended stream stop .empty (bufs.zip answers) →
      Finished stream stop answers last := by
    intro reached
    have whole := transcript.whole reached
    rw [all, ByteArray.empty_append] at whole
    exact (ended reached).finished whole
  refine ⟨length, part, ?_, ?_, read_empty codec⟩
  · intro before buf answer after split
    have each := transcript.each before buf answer after split
    rw [ByteArray.empty_append] at each
    exact ⟨each, fun room whole => finished
      ⟨before, buf, answer, after, split, room, by rw [ByteArray.empty_append, whole]⟩⟩
  · intro enough
    -- A read that is not at the end returns a byte, and there are too few of them.
    refine finished ?_
    refine Classical.byContradiction fun going => ?_
    have count := transcript.countP_le going
    have buffers : (bufs.zip answers).map Prod.fst = bufs :=
      List.map_fst_zip (Nat.le_of_eq length.symm)
    have same : (bufs.zip answers).countP (·.1 ≠ .empty) = bufs.countP (· ≠ .empty) :=
      calc (bufs.zip answers).countP (·.1 ≠ .empty)
        _ = ((bufs.zip answers).map Prod.fst).countP (· ≠ .empty) := by
          rw [List.countP_map]
          rfl
        _ = bufs.countP (· ≠ .empty) := by rw [buffers]
    obtain ⟨rest, part⟩ := part
    have sizes := congrArg ByteArray.size part
    rw [ByteArray.size_append] at sizes
    rw [all] at count
    omega

/-- Two frames, the second of which is cut after the length of its block. -/
def twoFrames : Frames := Blocks.frames ⟨#[2, 5, 6, 0, 1, 7, 0]⟩

theorem twoFrames_open : ¬twoFrames.Clean 5 := by
  rintro (start | ⟨j, inside, here, -, zero⟩)
  · cases start
  · obtain rfl : j = 4 := by omega
    cases zero

theorem reads_to_cut_open :
    let reader : DecompressReader Nat :=
      { source := .ofChunks [⟨#[2, 5]⟩, ⟨#[6, 0, 1]⟩], session := 0 }
    let (answers, last) :=
      reader.readAll Blocks.decompressor [⟨#[0]⟩, .empty, ⟨#[0, 0]⟩, ⟨#[0]⟩, ⟨#[0]⟩]
    Blocks.decompressor.Obeys ∧ Blocks.decompressor.Decodes 0 twoFrames ∧
      returned answers = ⟨#[5, 6]⟩ ∧ last.atFrameBoundary = false ∧ last.totalIn = 5 := by
  have lengths : Blocks.Lengths .start ⟨#[2, 5, 6, 0, 1, 7, 0]⟩ := by
    unfold Blocks.Lengths
    decide
  have decodes : Blocks.decompressor.Decodes 0 twoFrames := Blocks.decodes lengths
  have content : twoFrames.content 5 = ⟨#[5, 6]⟩ := by decide
  have run := reads_to_cut _ 0 _ Blocks.decompressor_obeys decodes 5 (by decide)
    [⟨#[2, 5]⟩, ⟨#[6, 0, 1]⟩] rfl [⟨#[0]⟩, .empty, ⟨#[0, 0]⟩, ⟨#[0]⟩, ⟨#[0]⟩]
  obtain ⟨-, -, -, enough, -⟩ := run
  obtain ⟨whole, boundary, totalIn, -⟩ := enough (by rw [content]; decide)
  refine ⟨Blocks.decompressor_obeys, decodes, whole.trans content, ?_, totalIn⟩
  exact Bool.eq_false_iff.mpr fun closed => twoFrames_open (boundary.mp closed)

end DecompressReader

end Sluice
