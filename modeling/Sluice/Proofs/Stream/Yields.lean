import Sluice.Proofs.Stream.ReadMoves
import Sluice.Stream.Copy

namespace Sluice

open Logged

variable {τ : Type} {codec : Decompressor τ}

/-- The buffer of a reading to the end. -/
def block : ByteArray := ⟨Array.replicate 8192 0⟩

theorem size_block : block.size = 8192 := Array.size_replicate

theorem block_ne_empty : block ≠ .empty := by
  intro none
  have size := size_block
  rw [none] at size
  cases size

abbrev Decompressor.over (codec : Decompressor τ) (s : τ) (shown buf : ByteArray) :
    Answer τ buf.size :=
  codec.step s ⟨shown, 0⟩ (.whole buf)

/-- From a session with this latest hint, over what the source shows, reading comes to an end: it
has produced `content`, and ended well or with a failure. The next step is to fill `buf`; after one
that produced something, or a fill that is to be repeated, it is a new block. -/
inductive Decompressor.Reads (codec : Decompressor τ) : Source → τ → (hint : Word) →
    (buf content : ByteArray) → (ended : Except Failure Unit) → Prop
  | ended {source source' : Source} {s : τ} {buf : ByteArray}
    (fill : source.fill = (.ok .empty, source')) : Reads codec source s 0 buf .empty (.ok ())
  | unfilled {source source' : Source} {s : τ} {hint : Word} {buf : ByteArray} {f : Failure}
    (fill : source.fill = (.error f, source')) (final : f.kind ≠ .interrupted) :
    Reads codec source s hint buf .empty (.error f)
  | failed {source source' : Source} {s : τ} {hint : Word} {buf shown : ByteArray}
    (fill : source.fill = (.ok shown, source')) (goes : shown = .empty → hint ≠ 0)
    (error : (codec.over s shown buf).code.isError = true) :
    Reads codec source s hint buf .empty (.error (.ofFault
      (.codec (codec.over s shown buf).code (describe (codec.over s shown buf).code))))
  | truncated {source source' : Source} {s : τ} {hint : Word} {buf : ByteArray}
    (fill : source.fill = (.ok .empty, source')) (opened : hint ≠ 0)
    (fine : (codec.over s .empty buf).code.isError = false)
    (silent : (codec.over s .empty buf).output.pos = 0) :
    Reads codec source s hint buf .empty (.error .truncated)
  | stalled {source source' : Source} {s : τ} {hint : Word} {buf shown : ByteArray}
    (fill : source.fill = (.ok shown, source')) (shows : shown ≠ .empty)
    (fine : (codec.over s shown buf).code.isError = false)
    (silent : (codec.over s shown buf).output.pos = 0)
    (still : (codec.over s shown buf).inPos = 0) :
    Reads codec source s hint buf .empty (.error .stalled)
  | retried {source source' : Source} {s : τ} {hint : Word} {buf content : ByteArray} {f : Failure}
    {ended : Except Failure Unit} (fill : source.fill = (.error f, source'))
    (signal : f.kind = .interrupted) (rest : Reads codec source' s hint block content ended) :
    Reads codec source s hint buf content ended
  | produced {source source' : Source} {s : τ} {hint : Word} {buf shown content : ByteArray}
    {ended : Except Failure Unit}
    (fill : source.fill = (.ok shown, source')) (goes : shown = .empty → hint ≠ 0)
    (fine : (codec.over s shown buf).code.isError = false)
    (gives : (codec.over s shown buf).output.pos ≠ 0)
    (rest : Reads codec (source'.consume (codec.over s shown buf).inPos)
      (codec.over s shown buf).state (codec.over s shown buf).code
      block content ended) :
    Reads codec source s hint buf
      ((codec.over s shown buf).given (.whole buf) ++ content) ended
  | consumed {source source' : Source} {s : τ} {hint : Word} {buf shown content : ByteArray}
    {ended : Except Failure Unit}
    (fill : source.fill = (.ok shown, source')) (shows : shown ≠ .empty)
    (fine : (codec.over s shown buf).code.isError = false)
    (silent : (codec.over s shown buf).output.pos = 0)
    (takes : (codec.over s shown buf).inPos ≠ 0)
    (rest : Reads codec (source'.consume (codec.over s shown buf).inPos)
      (codec.over s shown buf).state (codec.over s shown buf).code
      (codec.over s shown buf).output.dst content ended) :
    Reads codec source s hint buf content ended

/-- A fresh session is cut short or fails, at some point of the source. -/
def Decompressor.Fails (codec : Decompressor τ) (source : Source) (fresh : τ) (f : Failure) :
    Prop :=
  ∃ content, codec.Reads source fresh 0 block content (.error f)

namespace DecompressReader

variable {r r' : DecompressReader τ} {buf content sofar : ByteArray}
  {ended : Except Failure Unit}

abbrev Reads (codec : Decompressor τ) (r : DecompressReader τ) (buf content : ByteArray)
    (ended : Except Failure Unit) : Prop :=
  codec.Reads r.source r.session r.pending buf content ended

/-- What a read means for reading to the end. -/
def Reply.settle (sofar : ByteArray) :
    Reply τ → Turn (ByteArray × DecompressReader τ) (Delivery (DecompressReader τ))
  | (.ok piece, r) => if piece.isEmpty then .done ⟨sofar, .ok (), r⟩ else .again (sofar ++ piece, r)
  | (.error f, r) => if f.kind = .interrupted then .again (sofar, r) else .done ⟨sofar, .error f, r⟩

/-- After a read the reading goes on to an end, with this content in all. -/
def Completes (codec : Decompressor τ) (content : ByteArray) (ended : Except Failure Unit)
    (t : Turn (ByteArray × DecompressReader τ) (Delivery (DecompressReader τ))) : Prop :=
  ∃ d, d.content = content ∧ d.ended = ended ∧
    (t = .done d ∨ ∃ p ps, t = .again p ∧ Turns (drainTurn codec block) p ps d)

theorem Completes.turns
    (h : Completes codec content ended (drainTurn codec block (sofar, r)).value) :
    ∃ ps d, Turns (drainTurn codec block) (sofar, r) ps d ∧ d.content = content ∧
      d.ended = ended := by
  obtain ⟨d, whole, ended, done | ⟨p, ps, again, rest⟩⟩ := h
  · exact ⟨_, d, .done done, whole, ended⟩
  · exact ⟨_, d, .again again rest, whole, ended⟩

theorem settle_piece {piece : ByteArray} (nonempty : piece ≠ .empty) :
    Reply.settle sofar (.ok piece, r) = .again (sofar ++ piece, r) :=
  if_neg (mt isEmpty_iff.mp nonempty)

inductive Settled (sofar : ByteArray) :
    Reply τ → Turn (ByteArray × DecompressReader τ) (Delivery (DecompressReader τ)) → Prop
  | ended {r : DecompressReader τ} : Settled sofar (.ok .empty, r) (.done ⟨sofar, .ok (), r⟩)
  | piece {piece : ByteArray} {r : DecompressReader τ} (nonempty : piece ≠ .empty) :
    Settled sofar (.ok piece, r) (.again (sofar ++ piece, r))
  | retried {f : Failure} {r : DecompressReader τ} (signal : f.kind = .interrupted) :
    Settled sofar (.error f, r) (.again (sofar, r))
  | failed {f : Failure} {r : DecompressReader τ} (other : f.kind ≠ .interrupted) :
    Settled sofar (.error f, r) (.done ⟨sofar, .error f, r⟩)

theorem settled (sofar : ByteArray) (answer : Reply τ) :
    Settled sofar answer (Reply.settle sofar answer) := by
  obtain ⟨result, r⟩ := answer
  cases result with
  | ok piece =>
    by_cases none : piece = .empty
    · subst none
      exact .ended
    · rw [settle_piece none]
      exact .piece none
  | error f =>
    by_cases signal : f.kind = .interrupted
    · rw [Reply.settle, if_pos signal]
      exact .retried signal
    · rw [Reply.settle, if_neg signal]
      exact .failed signal

/-- The answer of a read that the reading goes on from to this content in all, or ends with. -/
inductive Leads (codec : Decompressor τ) :
    Reply τ → (content : ByteArray) → (ended : Except Failure Unit) → Prop
  | piece {piece content : ByteArray} {ended : Except Failure Unit} {r : DecompressReader τ}
    (nonempty : piece ≠ .empty) (rest : r.Reads codec block content ended) :
    Leads codec (.ok piece, r) (piece ++ content) ended
  | ended {r : DecompressReader τ} : Leads codec (.ok .empty, r) .empty (.ok ())
  | retried {f : Failure} {content : ByteArray} {ended : Except Failure Unit}
    {r : DecompressReader τ} (signal : f.kind = .interrupted)
    (rest : r.Reads codec block content ended) : Leads codec (.error f, r) content ended
  | failed {f : Failure} {r : DecompressReader τ} (final : f.kind ≠ .interrupted) :
    Leads codec (.error f, r) .empty (.error f)

/-- No failure but that of a fill is one to repeat the read for. -/
theorem Verdict.reads {shown : ByteArray} {source : Source} {answer : Reply τ}
    (v : Verdict codec { r with source } shown buf (.done answer)) (room : buf ≠ .empty)
    (fill : r.source.fill = (.ok shown, source)) (goes : shown = .empty → r.pending ≠ 0)
    (leads : Leads codec answer content ended) : r.Reads codec buf content ended := by
  cases v with
  | piece fine gives =>
    rw [stepped_of_fine fine] at leads
    generalize same : (move codec { r with source } shown buf).given = given at leads
    cases leads with
    | piece nonempty rest =>
      subst same
      exact .produced fill goes fine gives rest
    | ended => exact absurd ((given_eq_empty_iff room).mp same) gives
  | failed error =>
    cases leads with
    | retried signal rest => cases signal
    | failed final => exact .failed fill goes error
  | truncated fine silent dry =>
    subst dry
    cases leads with
    | retried signal rest => cases signal
    | failed final => exact .truncated fill (goes rfl) fine silent
  | stalled fine silent shows still =>
    cases leads with
    | retried signal rest => cases signal
    | failed final => exact .stalled fill shows fine silent still

end DecompressReader

end Sluice
