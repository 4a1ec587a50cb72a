import Sluice.Proofs.Codec.Streaming
import Sluice.Proofs.Stream.Source
import Sluice.Stream.Reader

namespace Sluice.DecompressReader

variable {τ : Type} {codec : Decompressor τ} {fresh : τ} {stream : Frames} {stop : Nat}
  {r : DecompressReader τ} {k : Nat} {out : ByteArray} {shown buf : ByteArray}

/-- The reader has consumed `k` bytes of the stream and decoded `out` from them, and its source
delivers the rest up to `stop`. -/
structure Reading (codec : Decompressor τ) (fresh : τ) (stream : Frames) (stop : Nat)
    (r : DecompressReader τ) (k : Nat) (out : ByteArray) : Prop where
  run : codec.Fed fresh stream.bytes k out r.session
  source : r.source.Delivers (stream.bytes.extract k stop)
  le : k ≤ stop
  pending : r.pending = 0 ↔ stream.Clean k ∧ out = stream.content k
  totalIn : r.totalIn = k
  totalOut : r.totalOut = out.size

theorem Reading.start (decodes : codec.Decodes fresh stream) {chunks : List ByteArray}
    (cut : joined chunks = stream.bytes.extract 0 stop) :
    Reading codec fresh stream stop { source := .ofChunks chunks, session := fresh } 0 .empty :=
  ⟨.fresh, cut ▸ Source.delivers_ofChunks chunks, Nat.zero_le _,
    ⟨fun _ => ⟨.inl rfl, decodes.empty.symm⟩, fun _ => rfl⟩, rfl, rfl⟩

abbrev answer (codec : Decompressor τ) (r : DecompressReader τ) (shown buf : ByteArray) :
    Answer τ buf.size :=
  codec.step r.session ⟨shown, 0⟩ (.whole buf)

def decoded (codec : Decompressor τ) (r : DecompressReader τ) (shown buf : ByteArray) :
    DecompressReader τ :=
  let a := r.answer codec shown buf
  { source := r.source.consume a.inPos, session := a.state, pending := a.code
    totalIn := r.totalIn + a.inPos, totalOut := r.totalOut + a.output.pos }

theorem decode_value (fine : (r.answer codec shown buf).code.isError = false) :
    (r.decode codec shown buf).value =
      let a := r.answer codec shown buf
      if a.output.pos ≠ 0 then .done (.ok (a.given (.whole buf)), r.decoded codec shown buf)
      else if shown.isEmpty then .done (.error .truncated, r.decoded codec shown buf)
      else if a.inPos = 0 then .done (.error .stalled, r.decoded codec shown buf)
      else .again (r.decoded codec shown buf, a.output.dst) := by
  unfold answer at fine
  simp only [decode, Answer.settle, Logged.value_bind, Logged.value_pure, Status.ofCode, fine,
    Bool.false_eq_true, if_false, Status.toExcept, apply_ite Logged.value]
  rfl

/-- A step over the bytes shown leaves the reader at a later place of the same stream. Where no
bytes are shown it is taken only while a frame is open. -/
theorem Reading.decoded (h : Reading codec fresh stream stop r k out) (obeys : codec.Obeys)
    (decodes : codec.Decodes fresh stream) (inside : stop ≤ stream.bytes.size)
    (shows : r.source.Shows (stream.bytes.extract k stop) shown) (room : buf ≠ .empty)
    (goes : shown = .empty → r.pending ≠ 0) :
    let a := r.answer codec shown buf
    a.Decoding ⟨shown, 0⟩ (.whole buf) stream k out ∧ a.Within ⟨shown, 0⟩ (.whole buf) ∧
      Reading codec fresh stream stop (r.decoded codec shown buf)
        (k + (a.taken ⟨shown, 0⟩).size) (out ++ a.given (.whole buf)) := by
  intro a
  have le := h.le
  have whole : (stream.bytes.extract k stop).size = stop - k := by
    rw [ByteArray.size_extract]
    omega
  obtain ⟨rest, split⟩ := shows.part
  have size : shown.size + rest.size = stop - k := by
    rw [← whole, split, ByteArray.size_append]
  have part : InWindow.Shows ⟨shown, 0⟩ stream.bytes k := by
    refine ⟨k + shown.size, ?_⟩
    have first : (stream.bytes.extract k stop).extract 0 shown.size = shown := by
      rw [split, ByteArray.extract_append_eq_left rfl]
    have near : min (k + shown.size) stop = k + shown.size := by omega
    rw [ByteArray.extract_extract, near] at first
    exact ByteArray.extract_zero_size.trans first.symm
  have space := OutWindow.whole_inside buf
  have step := decodes.step h.run ⟨shown, 0⟩ (.whole buf) (Nat.zero_le _) space part
  have next := h.run.step ⟨shown, 0⟩ (.whole buf) (Nat.zero_le _) space part
  have within : a.Within ⟨shown, 0⟩ (.whole buf) := obeys _ _ _ (Nat.zero_le _) space
  have taken : (a.taken ⟨shown, 0⟩).size = a.inPos := within.size_taken
  have given : (a.given (.whole buf)).size = a.output.pos := within.size_given
  have inPos : a.inPos ≤ shown.size := within.inPos_le
  have size_buf : buf.size ≠ 0 := fun none => room (ByteArray.size_eq_zero_iff.mp none)
  have code := step.code_eq_zero_iff decodes.empty (Nat.pos_of_ne_zero size_buf) fun left =>
    mt h.pending.mpr (goes (ByteArray.size_eq_zero_iff.mp left))
  refine ⟨step, within, next, ?_, by omega, code, ?_, ?_⟩
  · have delivers := shows.consumed a.inPos inPos
    have window : (stream.bytes.extract k stop).extract a.inPos (stop - k) =
        stream.bytes.extract (k + a.inPos) stop := by
      rw [ByteArray.extract_extract]
      congr 1
      omega
    rw [whole, window] at delivers
    rw [taken]
    exact delivers
  · change r.totalIn + a.inPos = _
    rw [h.totalIn, taken]
  · change r.totalOut + a.output.pos = _
    rw [h.totalOut, ByteArray.size_append, given]

/-- What a read answers, from a reader that has decoded `out`: more of the content; nothing, at
the end of a stream that is delivered in full; or a failure, if the bytes ended inside a frame. -/
inductive Answered (codec : Decompressor τ) (fresh : τ) (stream : Frames) (stop : Nat)
    (out : ByteArray) : Reply τ → Prop
  | piece {piece : ByteArray} {k : Nat} {r : DecompressReader τ} (nonempty : piece ≠ .empty)
    (later : Reading codec fresh stream stop r k (out ++ piece)) :
    Answered codec fresh stream stop out (.ok piece, r)
  | ended {r : DecompressReader τ} (clean : stream.Clean stop) (all : out = stream.content stop)
    (last : Reading codec fresh stream stop r stop out) :
    Answered codec fresh stream stop out (.ok .empty, r)
  | truncated {r : DecompressReader τ} (cut : ¬stream.Clean stop)
    (all : out = stream.content stop) (last : Reading codec fresh stream stop r stop out) :
    Answered codec fresh stream stop out (.error .truncated, r)

/-- What is known after one turn of a read: it answers the read, or it has consumed bytes without
producing any. -/
def Turned (codec : Decompressor τ) (fresh : τ) (stream : Frames) (stop : Nat)
    (out : ByteArray) : Turn (DecompressReader τ × ByteArray) (Reply τ) → Prop
  | .done answer => Answered codec fresh stream stop out answer
  | .again (r, buf) => buf ≠ .empty ∧ ∃ k, Reading codec fresh stream stop r k out

/-- No bytes are shown only at `stop`. -/
theorem Reading.eq_stop (h : Reading codec fresh stream stop r k out)
    (inside : stop ≤ stream.bytes.size)
    (shows : r.source.Shows (stream.bytes.extract k stop) .empty) : k = stop := by
  have nothing := congrArg ByteArray.size (shows.ends rfl)
  rw [ByteArray.size_extract, ByteArray.size_empty] at nothing
  have := h.le
  omega

theorem Reading.turned_decode (h : Reading codec fresh stream stop r k out)
    (obeys : codec.Obeys) (decodes : codec.Decodes fresh stream)
    (inside : stop ≤ stream.bytes.size)
    (shows : r.source.Shows (stream.bytes.extract k stop) shown) (room : buf ≠ .empty)
    (goes : shown = .empty → r.pending ≠ 0) :
    Turned codec fresh stream stop out (r.decode codec shown buf).value := by
  obtain ⟨step, within, next⟩ := h.decoded obeys decodes inside shows room goes
  have size_buf : 0 < buf.size :=
    Nat.pos_of_ne_zero fun none => room (ByteArray.size_eq_zero_iff.mp none)
  rw [decode_value step.fine]
  have taken := within.size_taken
  have given := within.size_given
  have size := (r.answer codec shown buf).output.size_dst
  generalize r.answer codec shown buf = a at step within next taken given size ⊢
  change _ = a.inPos at taken
  change _ = a.output.pos at given
  dsimp only
  by_cases produced : a.output.pos ≠ 0
  · rw [if_pos produced]
    refine .piece ?_ next
    intro silent
    rw [silent] at given
    exact produced given.symm
  · rw [if_neg produced]
    have silent : a.given (.whole buf) = .empty :=
      ByteArray.size_eq_zero_iff.mp (given.trans (by omega))
    rw [silent, ByteArray.append_empty] at next
    by_cases none : shown = .empty
    · subst none
      have spent : ByteArray.empty.isEmpty = true := rfl
      rw [if_pos spent]
      obtain rfl := h.eq_stop inside shows
      have still : (a.taken ⟨.empty, 0⟩).size = 0 := by
        have := within.inPos_le
        change a.inPos ≤ 0 at this
        omega
      -- Nothing is left to deliver, or the step would have moved something.
      have all : out = stream.content k := by
        by_cases all : out = stream.content k
        · exact all
        · have := step.moves size_buf (.inr all)
          omega
      rw [still] at next
      exact .truncated (fun clean => goes rfl (h.pending.mpr ⟨clean, all⟩)) all next
    · rw [if_neg (mt isEmpty_iff.mp none)]
      have size_shown : shown.size ≠ 0 := fun zero => none (ByteArray.size_eq_zero_iff.mp zero)
      have moved := step.moves size_buf (.inl size_shown)
      have took : ¬a.inPos = 0 := by omega
      rw [if_neg took]
      refine ⟨?_, _, next⟩
      intro zero
      rw [zero] at size
      exact room (ByteArray.size_eq_zero_iff.mp size.symm)

theorem Reading.turned_turn (h : Reading codec fresh stream stop r k out) (obeys : codec.Obeys)
    (decodes : codec.Decodes fresh stream) (inside : stop ≤ stream.bytes.size)
    (room : buf ≠ .empty) : Turned codec fresh stream stop out (r.turn codec buf).value := by
  obtain ⟨shown, source, filled, shows⟩ := Source.fill_delivers h.source
  have stand : Reading codec fresh stream stop { r with source } k out :=
    ⟨h.run, shows.kept, h.le, h.pending, h.totalIn, h.totalOut⟩
  unfold turn
  rw [filled]
  dsimp only
  by_cases ending : shown = .empty ∧ r.pending = 0
  · obtain ⟨rfl, pending⟩ := ending
    have boundary : (ByteArray.empty.isEmpty && atFrameBoundary { r with source }) = true := by
      simp [pending, atFrameBoundary, isEmpty_iff]
    rw [if_pos boundary]
    obtain rfl := stand.eq_stop inside shows
    obtain ⟨clean, all⟩ := h.pending.mp pending
    exact .ended clean all stand
  · have goes : ¬(shown.isEmpty && atFrameBoundary { r with source }) = true := by
      simpa [atFrameBoundary, isEmpty_iff] using ending
    rw [if_neg goes]
    exact stand.turned_decode obeys decodes inside shows room fun none pending =>
      ending ⟨none, pending⟩

theorem Reading.answered_readFrom (h : Reading codec fresh stream stop r k out)
    (obeys : codec.Obeys) (decodes : codec.Decodes fresh stream)
    (inside : stop ≤ stream.bytes.size) (room : buf ≠ .empty) (seen : Array Event) :
    Answered codec fresh stream stop out (readFrom codec seen r buf).value := by
  fun_induction readFrom codec seen r buf generalizing k with
  | case1 seen r buf turned answer =>
    rename_i done
    have next := h.turned_turn obeys decodes inside room
    rw [done] at next
    exact next
  | case2 seen r buf turned r' buf' again shorter =>
    rename_i ih
    have next := h.turned_turn obeys decodes inside room
    rw [again] at next
    obtain ⟨room', k', later⟩ := next
    exact ih later room'

theorem Reading.answered_read (h : Reading codec fresh stream stop r k out)
    (obeys : codec.Obeys) (decodes : codec.Decodes fresh stream)
    (inside : stop ≤ stream.bytes.size) (room : buf ≠ .empty) :
    Answered codec fresh stream stop out (r.read codec buf).value := by
  unfold read
  rw [if_neg (mt isEmpty_iff.mp room)]
  exact h.answered_readFrom obeys decodes inside room _

def readAll (codec : Decompressor τ) (r : DecompressReader τ) :
    List ByteArray → List (Except Failure ByteArray) × DecompressReader τ
  | [] => ([], r)
  | buf :: bufs =>
    let (answer, r) := (r.read codec buf).value
    let (answers, r) := r.readAll codec bufs
    (answer :: answers, r)

/-- Before a piece with something in it was read, it was missing. -/
theorem ne_content_of_piece {piece rest : ByteArray} (nonempty : piece ≠ .empty)
    (part : stream.content stop = out ++ piece ++ rest) : out ≠ stream.content stop := by
  intro all
  have sizes := congrArg ByteArray.size (all.trans part)
  simp only [ByteArray.size_append] at sizes
  exact nonempty (ByteArray.size_eq_zero_iff.mp (by omega))

/-- A run of reads over bytes that end where no frame is open: all succeed, each answers with
nothing exactly if the content was returned in full before, and the reader is at the end once one
of them did. -/
structure Ran (codec : Decompressor τ) (fresh : τ) (stream : Frames) (stop : Nat)
    (out : ByteArray) (pieces : List ByteArray) (r : DecompressReader τ) : Prop where
  reading : ∃ k, Reading codec fresh stream stop r k (out ++ joined pieces)
  silent : ∀ before piece after, pieces = before ++ piece :: after →
    (piece = .empty ↔ out ++ joined before = stream.content stop)
  last : .empty ∈ pieces → Reading codec fresh stream stop r stop (stream.content stop) ∧
    out ++ joined pieces = stream.content stop

theorem Ran.cons {piece : ByteArray} {pieces : List ByteArray}
    (ran : Ran codec fresh stream stop (out ++ piece) pieces r) (nonempty : piece ≠ .empty)
    {rest : ByteArray} (part : stream.content stop = out ++ piece ++ rest) :
    Ran codec fresh stream stop out (piece :: pieces) r := by
  refine ⟨?_, ?_, ?_⟩
  · obtain ⟨k, reading⟩ := ran.reading
    rw [ByteArray.append_assoc] at reading
    exact ⟨k, reading⟩
  · intro before other after split
    cases before with
    | nil =>
      cases split
      rw [joined_nil, ByteArray.append_empty]
      exact ⟨fun none => absurd none nonempty,
        fun all => absurd all (ne_content_of_piece nonempty part)⟩
    | cons b before =>
      cases split
      rw [joined_cons, ← ByteArray.append_assoc]
      exact ran.silent before other after rfl
  · intro silent
    rcases List.mem_cons.mp silent with none | later
    · exact absurd none.symm nonempty
    · rw [joined_cons, ← ByteArray.append_assoc]
      exact ran.last later

theorem readAll_cons {answer : Except Failure ByteArray} {r' : DecompressReader τ}
    (h : (r.read codec buf).value = (answer, r')) (bufs : List ByteArray) :
    r.readAll codec (buf :: bufs) =
      (answer :: (r'.readAll codec bufs).1, (r'.readAll codec bufs).2) := by
  simp only [readAll, h]

theorem Reading.ran (h : Reading codec fresh stream stop r k out) (obeys : codec.Obeys)
    (decodes : codec.Decodes fresh stream) (inside : stop ≤ stream.bytes.size)
    (clean : stream.Clean stop) {bufs : List ByteArray} (room : ∀ buf ∈ bufs, buf ≠ .empty) :
    ∃ pieces, (r.readAll codec bufs).1 = pieces.map .ok ∧ pieces.length = bufs.length ∧
      Ran codec fresh stream stop out pieces (r.readAll codec bufs).2 := by
  induction bufs generalizing r k out with
  | nil =>
    refine ⟨[], rfl, rfl, ⟨k, by simpa [readAll] using h⟩, ?_, nofun⟩
    intro before piece after split
    exact absurd split (by simp)
  | cons buf bufs ih =>
    have first := h.answered_read obeys decodes inside (room buf List.mem_cons_self)
    have others := fun b hb => room b (List.mem_cons_of_mem _ hb)
    generalize hr : (r.read codec buf).value = answer at first
    cases first with
    | @piece piece k' r' nonempty later =>
      obtain ⟨pieces, answers, length, ran⟩ := ih later others
      obtain ⟨rest, part⟩ := decodes.delivered_le obeys later.run later.le inside
      rw [readAll_cons hr]
      exact ⟨piece :: pieces, by rw [answers]; rfl, congrArg (· + 1) length, ran.cons nonempty part⟩
    | @ended r' _ all last =>
      obtain ⟨pieces, answers, length, ran⟩ := ih last others
      rw [readAll_cons hr]
      refine ⟨.empty :: pieces, by rw [answers]; rfl, congrArg (· + 1) length, ?_⟩
      have ending : Reading codec fresh stream stop (r'.readAll codec bufs).2 stop
          (stream.content stop) ∧ out ++ joined pieces = stream.content stop := by
        cases pieces with
        | nil =>
          obtain rfl := List.length_eq_zero_iff.mp length.symm
          exact ⟨all ▸ last, by simpa using all⟩
        | cons p ps =>
          have silent : p = .empty := (ran.silent [] p ps rfl).mpr (by simpa using all)
          exact ran.last (by simp [silent])
      refine ⟨by simpa using ran.reading, ?_, fun _ => by simpa using ending⟩
      intro before other after split
      cases before with
      | nil =>
        cases split
        exact ⟨fun _ => by simpa using all, fun _ => rfl⟩
      | cons b before =>
        cases split
        simpa using ran.silent before other after rfl
    | truncated cut => exact absurd clean cut

end Sluice.DecompressReader
