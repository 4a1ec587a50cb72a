import Sluice.Proofs.Codec.Unpacking
import Sluice.Proofs.Stream.ReadMoves

namespace Sluice

/-- No failure of the source itself says that the bytes ended too early. -/
structure Source.EofFree (s : Source) : Prop where
  queue : ∀ f, .gap (.fail f) ∈ s.queue → f.kind ≠ .unexpectedEof
  ahead : ∀ f, some (.fail f) ∈ s.ahead → f.kind ≠ .unexpectedEof

namespace Source

variable {s s' : Source} {result : Except Failure ByteArray}

theorem eofFree_iff : s.EofFree ↔ s.FailsOnly (·.kind ≠ .unexpectedEof) :=
  ⟨fun h => ⟨h.queue, h.ahead⟩, fun h => ⟨h.queue, h.ahead⟩⟩

theorem EofFree.fill (free : s.EofFree) (h : s.fill = (result, s')) :
    s'.EofFree ∧ ∀ f, result = .error f → f.kind ≠ .unexpectedEof :=
  (eofFree_iff.mp free).fill h |>.imp_left eofFree_iff.mpr

theorem EofFree.consume (free : s.EofFree) (n : Nat) : (s.consume n).EofFree :=
  eofFree_iff.mpr ((eofFree_iff.mp free).consume n)

end Source

namespace DecompressReader

variable {τ : Type} {codec : Decompressor τ} {r r' : DecompressReader τ} {buf : ByteArray}

theorem Round.eofFree {m : Option Move} {t : Turn (DecompressReader τ × ByteArray) (Reply τ)}
    (h : Round codec r buf m t) (free : r.source.EofFree) : (after t).source.EofFree := by
  cases h with
  | unfilled fill => exact (free.fill fill).1
  | ended fill closed => exact (free.fill fill).1
  | stepped fill goes verdict =>
    cases verdict <;> exact (free.fill fill).1.consume _

theorem Trail.eofFree {ms : List Move} (t : Trail codec r ms r') (free : r.source.EofFree) :
    r'.source.EofFree := by
  induction t with
  | refl r => exact free
  | round room first rest ih => exact ih (first.eofFree free)

/-- A turn answers with nothing exactly if the source shows nothing and no frame is open. -/
theorem Round.ended_iff {m : Option Move} {answer : Reply τ}
    (h : Round codec r buf m (.done answer)) (room : buf ≠ .empty) :
    answer.1 = .ok .empty ↔ r.source.fill.1 = .ok .empty ∧ r.atFrameBoundary = true := by
  have boundary : r.atFrameBoundary = true ↔ r.pending = 0 := beq_iff_eq
  rw [boundary]
  cases h with
  | unfilled fill =>
    rw [fill]
    simp
  | ended fill closed =>
    rw [fill]
    simp [closed]
  | stepped fill goes verdict =>
    rw [fill]
    constructor
    · intro ended
      cases verdict with
      | piece fine produced =>
        rw [Except.ok.injEq, given_eq_empty_iff room] at ended
        exact absurd ended produced
      | _ => cases ended
    · rintro ⟨dry, closed⟩
      exact absurd closed (goes (Except.ok.inj dry))

theorem Round.pending_of_ended {m : Option Move} {answer : Reply τ}
    (h : Round codec r buf m (.done answer)) (room : buf ≠ .empty) (ended : answer.1 = .ok .empty) :
    answer.2.pending = 0 := by
  cases h with
  | unfilled fill => cases ended
  | ended fill closed => exact closed
  | stepped fill goes verdict =>
    cases verdict with
    | piece fine produced =>
      rw [Except.ok.injEq, given_eq_empty_iff room] at ended
      exact absurd ended produced
    | _ => cases ended

def failureKind : Except Failure ByteArray → Option FailureKind
  | .ok _ => none
  | .error f => some f.kind

/-- A step over no bytes that gives none and does not fail. -/
structure Move.Drains (m : Move) : Prop where
  shown : m.shown = .empty
  given : m.given = .empty
  fine : m.code.isError = false

/-- No bytes are shown to a codec unless a frame is open. -/
theorem Round.opened {m : Move} {t : Turn (DecompressReader τ × ByteArray) (Reply τ)}
    (h : Round codec r buf (some m) t) (dry : m.shown = .empty) : r.pending ≠ 0 := by
  cases h with
  | stepped fill goes verdict => exact goes dry

/-- A turn declares the bytes truncated exactly if the codec, shown none, had nothing to give. -/
theorem Round.eof_iff {m : Option Move} {answer : Reply τ}
    (h : Round codec r buf m (.done answer)) (room : buf ≠ .empty) (free : r.source.EofFree) :
    failureKind answer.1 = some .unexpectedEof ↔ ∃ n ∈ m, n.Drains := by
  cases h with
  | unfilled fill =>
    have other := (free.fill fill).2 _ rfl
    simpa [failureKind] using other
  | ended fill closed => simp [failureKind]
  | stepped fill goes verdict =>
    simp only [Option.mem_def, Option.some.injEq, exists_eq_left']
    constructor
    · intro eof
      cases verdict with
      | truncated fine silent dry =>
        exact ⟨dry, (given_eq_empty_iff room).mpr silent, fine⟩
      | _ => cases eof
    · intro drains
      cases verdict with
      | failed error =>
        have fine := drains.fine
        exact absurd (error.symm.trans fine) (by decide)
      | piece fine produced => exact absurd ((given_eq_empty_iff room).mp drains.given) produced
      | truncated fine silent dry => rfl
      | stalled fine silent shows still => exact absurd drains.shown shows

theorem code_getLast_iff {hint : Word} {ms : List Move} (closed : latest hint ms = 0) :
    (∀ m ∈ ms.getLast?, m.code = 0) ↔ ∀ m ∈ ms.getLast?, m.code.isError = false := by
  constructor
  · intro zero m hm
    rw [zero m hm]
    decide
  · intro fine m hm
    obtain ⟨before, rfl⟩ := List.getLast?_eq_some_iff.mp hm
    exact (latest_concat hint before (fine m hm)).symm.trans closed

/-- Whatever failed before, a read with room answers with nothing exactly if at last its source
shows nothing while no frame is open. The codec's latest step then answered 0 exactly if it did not
fail: of the steps that did not, the latest answered 0. -/
theorem clean_end_iff (codec : Decompressor τ) (source : Source) (fresh : τ)
    (bufs : List ByteArray) (buf : ByteArray) (room : buf ≠ .empty) :
    let reader : DecompressReader τ := { source, session := fresh }
    let r := (reader.readAll codec bufs).2
    let steps := reader.readAllMoves codec bufs ++ r.readMoves codec buf
    ((r.read codec buf).value.1 = .ok .empty ↔ ∃ p ∈ (r.readStates codec buf).getLast?,
      p.1.source.fill.1 = .ok .empty ∧ p.1.atFrameBoundary = true) ∧
    ((r.read codec buf).value.1 = .ok .empty → latest 0 steps = 0 ∧
      ((∀ m ∈ steps.getLast?, m.code = 0) ↔ ∀ m ∈ steps.getLast?, m.code.isError = false)) := by
  intro reader r steps
  obtain ⟨before, last, states, space, -, -, answered⟩ := split_turns (turns_read codec r room) room
  constructor
  · rw [states, List.getLast?_concat, answered.ended_iff space]
    simp
  · intro ended
    have trail : Trail codec reader steps (r.read codec buf).value.2 :=
      (trail_readAll codec reader bufs).trans (trail_read codec r buf)
    have closed : latest 0 steps = 0 :=
      trail.pending.symm.trans (answered.pending_of_ended space ended)
    exact ⟨closed, code_getLast_iff closed⟩

/-- A frame, its end and a length that is none, and then a frame again. -/
def mending : DecompressReader Nat :=
  { source := .ofChunks [⟨#[2, 5]⟩, ⟨#[6, 0, 200]⟩, ⟨#[1, 7, 0]⟩], session := 0 }

theorem eq_ok_of_toOption {answer : Except Failure ByteArray} {piece : ByteArray}
    (h : answer.toOption = some piece) : answer = .ok piece := by
  cases answer with
  | ok other => exact congrArg Except.ok (Option.some.inj h)
  | error f => cases h

theorem clean_end_mending :
    let bufs : List ByteArray := .replicate 4 ⟨#[0, 0]⟩
    let r := (mending.readAll Blocks.decompressor bufs).2
    let steps := mending.readAllMoves Blocks.decompressor bufs ++
      r.readMoves Blocks.decompressor ⟨#[0, 0]⟩
    steps.map (·.code) = [1, 0, ErrorNumber.corruption.code, 0] ∧
      (r.read Blocks.decompressor ⟨#[0, 0]⟩).value.1 = .ok .empty ∧
      ∀ m ∈ steps.getLast?, m.code = 0 := by
  intro bufs r steps
  have ended : (r.read Blocks.decompressor ⟨#[0, 0]⟩).value.1 = .ok .empty :=
    eq_ok_of_toOption (by decide +kernel)
  obtain ⟨-, closed⟩ :=
    clean_end_iff Blocks.decompressor mending.source 0 bufs ⟨#[0, 0]⟩ (by decide)
  exact ⟨by decide +kernel, ended, (closed ended).2.mpr (by decide +kernel)⟩

def corrupted : DecompressReader Nat := { source := .ofChunks [⟨#[200]⟩], session := 0 }

/-- The codec fails over the only byte there is, and the next read reports a clean end. -/
theorem clean_end_corrupted :
    let r := (corrupted.readAll Blocks.decompressor [⟨#[0]⟩]).2
    let steps := corrupted.readAllMoves Blocks.decompressor [⟨#[0]⟩] ++
      r.readMoves Blocks.decompressor ⟨#[0]⟩
    Blocks.decompressor.Obeys ∧ (r.read Blocks.decompressor ⟨#[0]⟩).value.1 = .ok .empty ∧
      ¬∀ m ∈ steps.getLast?, m.code = 0 := by
  intro r steps
  refine ⟨Blocks.decompressor_obeys, eq_ok_of_toOption (by decide +kernel), ?_⟩
  decide +kernel

/-- A read with room over a source that does not claim it is declared truncated exactly if its last
codec step was shown nothing, gave nothing and did not fail. A frame was open before that step; one
is open after it exactly if the step did not answer 0. -/
theorem declared_truncated_iff (codec : Decompressor τ) (source : Source) (free : source.EofFree)
    (fresh : τ) (bufs : List ByteArray) (buf : ByteArray) (room : buf ≠ .empty) :
    let reader : DecompressReader τ := { source, session := fresh }
    let r := (reader.readAll codec bufs).2
    let (answer, last) := (r.read codec buf).value
    (failureKind answer = some .unexpectedEof ↔
      ∃ m ∈ (r.readMoves codec buf).getLast?, m.Drains) ∧
    ∀ m ∈ (r.readMoves codec buf).getLast?, m.Drains →
      (∃ before, reader.readAllMoves codec bufs ++ r.readMoves codec buf = before ++ [m] ∧
        latest 0 before ≠ 0) ∧
      (last.atFrameBoundary = false ↔ m.code ≠ 0) := by
  intro reader r
  have earlier : Trail codec reader (reader.readAllMoves codec bufs) r :=
    trail_readAll codec reader bufs
  obtain ⟨before, p, states, space, trail, goesOn, answered⟩ :=
    split_turns (turns_read codec r room) room
  have moves : r.readMoves codec buf = movesFrom codec before ++ (p.1.moveOf codec p.2).toList := by
    rw [readMoves_of_room room, states, movesFrom_append, movesFrom_singleton]
  have whole := earlier.trans trail
  have eof := answered.eof_iff space (whole.eofFree free)
  have final := (earlier.trans (trail_read codec r buf)).pending
  rw [moves] at final ⊢
  cases hm : p.1.moveOf codec p.2 with
  | none =>
    -- The last step, if any, is one after which the read went on.
    have none : ∀ m ∈ (movesFrom codec before).getLast?, ¬m.Drains := fun m hm drains =>
      (goesOn m (List.mem_of_getLast? hm)).shown drains.shown
    rw [hm] at eof
    rw [Option.toList_none, List.append_nil]
    refine ⟨?_, fun m hm drains => absurd drains (none m hm)⟩
    rw [eof]
    constructor
    · rintro ⟨m, ⟨⟩, -⟩
    · rintro ⟨m, hm, drains⟩
      exact absurd drains (none m hm)
  | some m =>
    rw [hm] at eof answered final
    rw [Option.toList_some, List.getLast?_concat]
    refine ⟨eof, ?_⟩
    rintro n ⟨⟩ drains
    refine ⟨⟨_, (List.append_assoc ..).symm, ?_⟩, ?_⟩
    · rw [← whole.pending]
      exact answered.opened drains.shown
    · have here : (r.read codec buf).value.2.pending = m.code := by
        rw [final, Option.toList_some, ← List.append_assoc]
        exact latest_concat _ _ drains.fine
      unfold atFrameBoundary
      rw [here]
      exact beq_eq_false_iff_ne

/-- A block that is cut, and then a failure of the source. -/
def cutShort : DecompressReader Nat :=
  { source := { queue := [.chunk ⟨#[2, 5]⟩, .gap (.fail ⟨.device "TimedOut", "late"⟩)] }
    session := 0 }

theorem declared_truncated_cutShort :
    let bufs : List ByteArray := .replicate 2 ⟨#[0, 0]⟩
    let r := (cutShort.readAll Blocks.decompressor bufs).2
    let (answer, last) := (r.read Blocks.decompressor ⟨#[0, 0]⟩).value
    cutShort.source.EofFree ∧ failureKind answer = some .unexpectedEof ∧
      last.atFrameBoundary = false := by
  intro bufs r
  have free : cutShort.source.EofFree := by
    refine ⟨?_, nofun⟩
    intro f hf
    rcases List.mem_cons.mp hf with chunk | hf
    · cases chunk
    · rcases List.mem_singleton.mp hf with ⟨⟩
      decide
  obtain ⟨truncated, boundary⟩ := declared_truncated_iff Blocks.decompressor cutShort.source free 0
    bufs ⟨#[0, 0]⟩ (by decide)
  have last : (r.readMoves Blocks.decompressor ⟨#[0, 0]⟩).map
      (fun m => (m.shown, m.given, m.code)) = [(.empty, .empty, 1)] := by decide +kernel
  obtain ⟨m, step, drained⟩ := List.map_eq_singleton_iff.mp last
  simp only [Prod.mk.injEq] at drained
  obtain ⟨shown, given, code⟩ := drained
  have drains : m.Drains := ⟨shown, given, by rw [code]; decide⟩
  have here : m ∈ (r.readMoves Blocks.decompressor ⟨#[0, 0]⟩).getLast? := by
    rw [step]
    rfl
  refine ⟨free, truncated.mpr ⟨m, here, drains⟩, (boundary m here drains).2.mpr ?_⟩
  rw [code]
  decide

/-- Copies bytes, and closes its frame once it is shown none. -/
def lingering : Decompressor Unit :=
  .ofSlices fun s unread room =>
    let n := min unread.size room
    ⟨if unread.isEmpty then 0 else 1, s, n, unread.extract 0 n⟩

theorem lingering_obeys : lingering.Obeys := by
  refine Decompressor.obeys_ofSlices fun s unread room => ⟨Nat.min_le_left _ _, ?_⟩
  rw [ByteArray.size_extract]
  omega

def whole : DecompressReader Unit := { source := .ofChunks [⟨#[97]⟩], session := () }

/-- The codec closes its frame in a step that gives nothing, and the stream is declared
truncated. -/
theorem declared_truncated_whole :
    let r := (whole.readAll lingering [⟨#[0]⟩]).2
    let (answer, last) := (r.read lingering ⟨#[0]⟩).value
    lingering.Obeys ∧ whole.source.EofFree ∧ failureKind answer = some .unexpectedEof ∧
      (r.readMoves lingering ⟨#[0]⟩).map (·.code) = [0] ∧ last.atFrameBoundary = true := by
  intro r
  refine ⟨lingering_obeys, ⟨?_, nofun⟩, ?_⟩
  · intro f hf
    rcases List.mem_singleton.mp hf with ⟨⟩
  · decide +kernel

end DecompressReader

end Sluice
