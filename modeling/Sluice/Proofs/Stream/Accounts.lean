import Sluice.Proofs.Stream.WatchedWriter

namespace Sluice.CompressWriter

variable {σ : Type} {codec : Compressor σ} {budget : Nat} {w w' : CompressWriter σ}
  {ms : List Move}

theorem Trail.totalIn (obeys : codec.Obeys) (t : Trail codec w ms w') :
    w'.totalIn = w.totalIn + (joined (ms.map (·.taken))).size := by
  induction t with
  | refl w => rfl
  | step input mode inside idle rest ih =>
    rw [ih, (stepped obeys inside).totalIn, List.map_cons, joined_cons, ByteArray.size_append,
      Nat.add_assoc]
  | flushSink rest ih => exact ih

theorem Trail.totalOut (obeys : codec.Obeys) (t : Trail codec w ms w') :
    w'.totalOut = w.totalOut + (joined ((ms.filter (·.sent.isOk)).map (·.given))).size := by
  induction t with
  | refl w => rfl
  | @step w w' ms input mode inside idle rest ih =>
    rw [ih, (stepped obeys inside).totalOut, List.filter_cons]
    split
    · rw [List.map_cons, joined_cons, ByteArray.size_append, Nat.add_assoc]
    · rfl
  | flushSink rest ih => exact ih

/-- The books between two states of a writer, over the codec steps that lead from one to the
other. -/
structure Balanced (w : CompressWriter σ) (ms : List Move) (w' : CompressWriter σ) : Prop where
  accepted : w'.sink.accepted = w.sink.accepted ++ joined (ms.map (·.arrived))
  accounted : ∀ m ∈ ms, m.Accounted
  totalIn : w'.totalIn = w.totalIn + (joined (ms.map (·.taken))).size
  totalOut : w'.totalOut = w.totalOut + (joined ((ms.filter (·.sent.isOk)).map (·.given))).size

theorem Trail.balanced (obeys : codec.Obeys) (t : Trail codec w ms w') : Balanced w ms w' :=
  ⟨t.accepted obeys, t.accounted, t.totalIn obeys, t.totalOut obeys⟩

/-- What a call that feeds a buffer did with it. `count` is what it answers if it succeeds. -/
structure FeedKept (buf : ByteArray) (count : Option Nat) (x : Served) : Prop where
  mode : ∀ m ∈ x.moves, m.mode = .more
  /-- The codec was shown the buffer from the front on, and then what it had not yet consumed. -/
  onward : Onward ⟨buf, 0⟩ x.moves
  taken : ∃ rest, buf = joined (x.moves.map (·.taken)) ++ rest
  ok : ∀ n, x.answer = .ok n →
    n = count ∧ joined (x.moves.map (·.taken)) = buf ∧ ∀ m ∈ x.moves, m.Fine
  failed : ∀ f, x.answer = .error f → f.kind ≠ .interrupted ∧ FailsLast x.moves f

theorem Feeding.kept {buf : ByteArray} {result : Except Failure Unit} (count : Option Nat)
    (h : Feeding codec w ⟨buf, 0⟩ ms result w') :
    FeedKept buf count ⟨result.map fun () => count, ms⟩ := by
  obtain ⟨rest, split, -⟩ := h.taken
  rw [InWindow.unread_whole] at split
  refine ⟨h.mode, h.onward, ⟨rest, split⟩, ?_, ?_⟩
  · intro n hn
    cases result with
    | error f => cases hn
    | ok =>
      cases hn
      exact ⟨rfl, h.all.2, h.fine rfl⟩
  · intro f hf
    cases result with
    | error g =>
      cases hf
      exact h.failed _ rfl
    | ok => cases hf

/-- Codec steps after which the codec holds nothing back and the sink has all they produced. -/
structure Emptied (w : CompressWriter σ) (ms : List Move) (w' : CompressWriter σ) : Prop where
  fine : ∀ m ∈ ms, m.Fine
  last : ∃ before m, ms = before ++ [m] ∧ m.code = 0 ∧ ∀ m ∈ before, m.code ≠ 0
  accepted : w'.sink.accepted = w.sink.accepted ++ joined (ms.map (·.given))

theorem Draining.emptied (obeys : codec.Obeys) {mode : EndMode}
    (h : Draining codec w mode ms (.ok ()) w') : Emptied w ms w' := by
  have whole : ms.map (·.arrived) = ms.map (·.given) :=
    List.map_congr_left fun m hm => (h.trail.accounted m hm).1 (h.fine rfl m hm).2
  refine ⟨h.fine rfl, h.last rfl, ?_⟩
  rw [h.trail.accepted obeys, whole]

/-- What a call that asks for held bytes in `mode` did between `w` and `w'`. It flushes the sink
once the codec is emptied, and answers what the sink answers. -/
structure DrainKept (mode : EndMode) (w : CompressWriter σ) (x : Served) (w' : CompressWriter σ) :
    Prop where
  mode : ∀ m ∈ x.moves, m.mode = mode ∧ m.input = idle ∧ m.taken = .empty
  ok : ∀ n, x.answer = .ok n → n = none ∧
    ∃ drained, Emptied w x.moves drained ∧ drained.flushSink = (.ok (), w')
  failed : ∀ f, x.answer = .error f → (f.kind ≠ .interrupted ∧ FailsLast x.moves f) ∨
    ∃ drained, Emptied w x.moves drained ∧ drained.flushSink = (.error f, w')

theorem Draining.kept (obeys : codec.Obeys) {mode : EndMode}
    {p : Except Failure Unit × CompressWriter σ} (h : Draining codec w mode ms p.1 p.2) :
    DrainKept mode w ⟨(settled p).1.map fun () => none, ms⟩ (settled p).2 := by
  obtain ⟨result, drained⟩ := p
  cases result with
  | error f =>
    refine ⟨h.mode, nofun, ?_⟩
    intro g hg
    cases hg
    exact .inl (h.failed f rfl)
  | ok =>
    have emptied : Emptied w ms drained := h.emptied obeys
    -- What is left is the sink's answer to the flush.
    change DrainKept mode w ⟨drained.flushSink.1.map fun () => none, ms⟩ drained.flushSink.2
    cases hf : drained.flushSink with
    | mk flushed last =>
      cases flushed with
      | ok =>
        refine ⟨h.mode, ?_, nofun⟩
        intro n hn
        cases hn
        exact ⟨rfl, drained, emptied, hf⟩
      | error f =>
        refine ⟨h.mode, nofun, ?_⟩
        intro g hg
        cases hg
        exact .inr ⟨drained, emptied, hf⟩

def Operation.Kept (w : CompressWriter σ) (x : Served) (w' : CompressWriter σ) :
    Operation → Prop
  | .call (.write buf) => FeedKept buf (some buf.size) x
  | .call (.writeAll buf) => FeedKept buf none x
  | .call .flush => DrainKept .flush w x w'
  | .finish => DrainKept .finish w x w'

theorem Performed.kept (obeys : codec.Obeys) {op : Operation} {x : Served}
    (h : Performed codec w op x w') : op.Kept w x w' := by
  cases h with
  | write feeding => exact feeding.kept _
  | writeAll feeding => exact feeding.kept _
  | flush draining => exact draining.kept obeys
  | finish draining => exact draining.kept obeys

end Sluice.CompressWriter
