import Sluice.Proofs.Codec.Contract
import Sluice.Proofs.Stream.Sink
import Sluice.Stream.Writer

namespace Sluice.CompressWriter

variable {σ : Type} {codec : Compressor σ} {w : CompressWriter σ} {input : InWindow}
  {mode : EndMode}

/-- A codec step on behalf of a writer. -/
structure Move where
  mode : EndMode
  input : InWindow
  /-- What the codec consumed. -/
  taken : ByteArray
  /-- What the codec produced. -/
  given : ByteArray
  code : Word
  sent : Except Failure Unit
  /-- What the sink accepted of what was produced. -/
  arrived : ByteArray

def answer (codec : Compressor σ) (w : CompressWriter σ) (input : InWindow) (mode : EndMode) :
    Answer σ w.staging.size :=
  codec.step w.session input (.whole w.staging) mode

def move (codec : Compressor σ) (w : CompressWriter σ) (input : InWindow) (mode : EndMode) :
    Move :=
  let a := w.answer codec input mode
  let given := a.given (.whole w.staging)
  let (sent, sink) := w.sink.writeAll given
  { mode, input, taken := a.taken input, given, code := a.code, sent
    arrived := sink.accepted.extract w.sink.accepted.size sink.accepted.size }

namespace Move

/-- The codec reported no error and the sink took all bytes. -/
def Fine (m : Move) : Prop := m.code.isError = false ∧ m.sent = .ok ()

/-- The result that a writer makes of the step. -/
def result (m : Move) : Except Failure Word :=
  m.sent.bind fun () => (Status.ofCode m.code).toExcept.mapError .ofFault

theorem result_of_fine {m : Move} (h : m.Fine) : m.result = .ok m.code := by
  have status : Status.ofCode m.code = .hint m.code := by simp [Status.ofCode, h.1]
  unfold result
  rw [h.2, status]
  rfl

theorem result_of_isError {m : Move} (sent : m.sent = .ok ()) (h : m.code.isError = true) :
    ∃ fault, m.result = .error (.ofFault fault) := by
  have status : Status.ofCode m.code = .error m.code := by simp [Status.ofCode, h]
  unfold result
  rw [sent, status]
  exact ⟨_, rfl⟩

theorem result_of_unsent {m : Move} {f : Failure} (h : m.sent = .error f) :
    m.result = .error f := by
  unfold result
  rw [h]
  rfl

theorem result_eq_ok {m : Move} {hint : Word} (h : m.result = .ok hint) :
    m.Fine ∧ hint = m.code := by
  cases hs : m.sent with
  | error f =>
    rw [result_of_unsent hs] at h
    cases h
  | ok =>
    cases hc : m.code.isError with
    | true =>
      obtain ⟨fault, failed⟩ := result_of_isError hs hc
      rw [failed] at h
      cases h
    | false =>
      rw [result_of_fine ⟨hc, hs⟩] at h
      cases h
      exact ⟨⟨hc, hs⟩, rfl⟩

theorem result_eq_error {m : Move} {f : Failure} (h : m.result = .error f) :
    m.sent = .error f ∨ f.kind = .other := by
  cases hs : m.sent with
  | error g =>
    rw [result_of_unsent hs] at h
    cases h
    exact .inl rfl
  | ok =>
    right
    cases hc : m.code.isError with
    | true =>
      obtain ⟨fault, failed⟩ := result_of_isError hs hc
      rw [failed] at h
      cases h
      rfl
    | false =>
      rw [result_of_fine ⟨hc, hs⟩] at h
      cases h

end Move

theorem accepted_move (codec : Compressor σ) (w : CompressWriter σ) (input : InWindow)
    (mode : EndMode) :
    (w.sink.writeAll (w.move codec input mode).given).2.accepted =
      w.sink.accepted ++ (w.move codec input mode).arrived := by
  have arrived : (w.move codec input mode).arrived =
      (w.sink.writeAll (w.move codec input mode).given).2.accepted.extract w.sink.accepted.size
        (w.sink.writeAll (w.move codec input mode).given).2.accepted.size := rfl
  rw [arrived]
  have part : ∃ more, (w.sink.writeAll (w.move codec input mode).given).2.accepted =
      w.sink.accepted ++ more := by
    cases hw : w.sink.writeAll (w.move codec input mode).given with
    | mk result sink =>
      cases result with
      | ok => exact ⟨_, Sink.accepted_writeAll_ok hw⟩
      | error f =>
        obtain ⟨-, n, -, h⟩ := Sink.accepted_writeAll_error hw
        exact ⟨_, h⟩
  obtain ⟨more, h⟩ := part
  rw [h, ByteArray.size_append, extract_append_right rfl, extract_of_size_le (Nat.le_refl _)]

theorem arrived_of_sent (h : (w.move codec input mode).sent = .ok ()) :
    (w.move codec input mode).arrived = (w.move codec input mode).given := by
  have all := Sink.accepted_writeAll_ok (s := w.sink) (Prod.ext h rfl)
  exact (ByteArray.append_right_inj _).mp ((accepted_move codec w input mode).symm.trans all)

theorem arrived_of_unsent {f : Failure} (h : (w.move codec input mode).sent = .error f) :
    f.kind ≠ .interrupted ∧ ∃ n, n < (w.move codec input mode).given.size ∧
      (w.move codec input mode).arrived = (w.move codec input mode).given.extract 0 n := by
  obtain ⟨final, n, less, part⟩ := Sink.accepted_writeAll_error (s := w.sink) (Prod.ext h rfl)
  exact ⟨final, n, less,
    (ByteArray.append_right_inj _).mp ((accepted_move codec w input mode).symm.trans part)⟩

/-- What arrived of a step is all it produced if the sink said so, and less if it did not. -/
def Move.Accounted (m : Move) : Prop :=
  (m.sent = .ok () → m.arrived = m.given) ∧
    (m.sent ≠ .ok () → ∃ n, n < m.given.size ∧ m.arrived = m.given.extract 0 n)

theorem accounted_move (codec : Compressor σ) (w : CompressWriter σ) (input : InWindow)
    (mode : EndMode) : (w.move codec input mode).Accounted := by
  refine ⟨arrived_of_sent, ?_⟩
  intro unsent
  cases hs : (w.move codec input mode).sent with
  | error f => exact (arrived_of_unsent hs).2
  | ok => exact absurd hs unsent

theorem step_unsent {f : Failure} (h : (w.move codec input mode).sent = .error f) :
    let a := w.answer codec input mode
    (w.step codec input mode).value = ⟨.error f,
      ⟨input.src, min (input.pos + (a.inPos - input.pos)) input.src.size⟩,
      ⟨(w.sink.writeAll (w.move codec input mode).given).2, a.state, a.output.dst,
        w.totalIn + (a.inPos - input.pos), w.totalOut⟩⟩ := by
  have sent : (w.sink.writeAll
      ((codec.step w.session input (.whole w.staging) mode).output.dst.extract 0
        ((codec.step w.session input (.whole w.staging) mode).output.pos -
          (OutWindow.whole w.staging).pos))).1 = .error f := h
  simp only [step, Answer.settle, Logged.value_bind, Logged.value_pure, sent]
  rfl

theorem step_sent (h : (w.move codec input mode).sent = .ok ()) :
    let a := w.answer codec input mode
    (w.step codec input mode).value = ⟨(w.move codec input mode).result,
      ⟨input.src, min (input.pos + (a.inPos - input.pos)) input.src.size⟩,
      ⟨(w.sink.writeAll (w.move codec input mode).given).2, a.state, a.output.dst,
        w.totalIn + (a.inPos - input.pos), w.totalOut + a.output.pos⟩⟩ := by
  have sent : (w.sink.writeAll
      ((codec.step w.session input (.whole w.staging) mode).output.dst.extract 0
        ((codec.step w.session input (.whole w.staging) mode).output.pos -
          (OutWindow.whole w.staging).pos))).1 = .ok () := h
  simp only [step, Answer.settle, Logged.value_bind, Logged.value_pure, sent]
  unfold Move.result
  rw [h]
  rfl

theorem step_leaves (codec : Compressor σ) (w : CompressWriter σ) (input : InWindow)
    (mode : EndMode) :
    let e := (w.step codec input mode).value
    e.result = (w.move codec input mode).result ∧ e.input.Inside ∧
      input.left = (w.move codec input mode).taken.size + e.input.left ∧
      e.writer.session = (w.answer codec input mode).state ∧
      e.writer.staging.size = w.staging.size := by
  intro e
  have taken : (w.move codec input mode).taken.size =
      min (w.answer codec input mode).inPos input.src.size - input.pos := ByteArray.size_extract
  have inside : min (input.pos + ((w.answer codec input mode).inPos - input.pos)) input.src.size ≤
      input.src.size := Nat.min_le_right _ _
  have left : input.left = (w.move codec input mode).taken.size +
      (input.src.size - min (input.pos + ((w.answer codec input mode).inPos - input.pos))
        input.src.size) := by
    have left : input.left = input.src.size - input.pos := rfl
    omega
  have staging := (w.answer codec input mode).output.size_dst
  cases hs : (w.move codec input mode).sent with
  | error f =>
    have value : e = _ := step_unsent hs
    rw [value]
    exact ⟨(Move.result_of_unsent hs).symm, inside, left, rfl, staging⟩
  | ok =>
    have value : e = _ := step_sent hs
    rw [value]
    exact ⟨rfl, inside, left, rfl, staging⟩

/-- All that a step does to its writer and its input. -/
structure Stepped (codec : Compressor σ) (w : CompressWriter σ) (input : InWindow)
    (mode : EndMode) (e : Emission σ) : Prop where
  result : e.result = (w.move codec input mode).result
  inside : e.input.Inside
  moved : e.input = ⟨input.src, input.pos + (w.move codec input mode).taken.size⟩
  unread : input.unread = (w.move codec input mode).taken ++ e.input.unread
  sink : e.writer.sink = (w.sink.writeAll (w.move codec input mode).given).2
  session : e.writer.session = (w.answer codec input mode).state
  staging : e.writer.staging.size = w.staging.size
  totalIn : e.writer.totalIn = w.totalIn + (w.move codec input mode).taken.size
  totalOut : e.writer.totalOut =
    w.totalOut + if (w.move codec input mode).sent.isOk then (w.move codec input mode).given.size
      else 0

theorem stepped (obeys : codec.Obeys) (inside : input.Inside) :
    w.Stepped codec input mode (w.step codec input mode).value := by
  have within : (w.answer codec input mode).Within input (.whole w.staging) :=
    obeys _ _ _ _ inside (OutWindow.whole_inside _)
  have taken : (w.move codec input mode).taken.size =
      (w.answer codec input mode).inPos - input.pos := within.size_taken
  have given : (w.move codec input mode).given.size = (w.answer codec input mode).output.pos :=
    within.size_given
  have here : min (input.pos + ((w.answer codec input mode).inPos - input.pos)) input.src.size =
      (w.answer codec input mode).inPos := by
    have := within.input_le
    have := within.inPos_le
    omega
  have staging := (w.answer codec input mode).output.size_dst
  have next : (w.answer codec input mode).inPos =
      input.pos + (w.move codec input mode).taken.size := by
    rw [taken, Nat.add_sub_cancel' within.input_le]
  have moved := congrArg (InWindow.mk input.src) next
  cases hs : (w.move codec input mode).sent with
  | error f =>
    rw [step_unsent hs, here, ← taken]
    refine ⟨?_, within.inPos_le, moved, within.unread, rfl, rfl, staging, rfl, ?_⟩
    · simp [Move.result, hs, Except.bind]
    · simp [hs, Except.isOk, Except.toBool]
  | ok =>
    rw [step_sent hs, here, ← taken, ← given]
    refine ⟨rfl, within.inPos_le, moved, within.unread, rfl, rfl, staging, rfl, ?_⟩
    simp [hs, Except.isOk, Except.toBool]

theorem Stepped.accepted {e : Emission σ} (h : w.Stepped codec input mode e) :
    e.writer.sink.accepted = w.sink.accepted ++ (w.move codec input mode).arrived := by
  rw [h.sink]
  exact accepted_move codec w input mode

end Sluice.CompressWriter
