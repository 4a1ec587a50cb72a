import Mathlib.Order.Monotone.Basic
import Sluice.Proofs.Codec.Metered
import Sluice.Proofs.Stream.WatchedWriter

namespace Sluice.CompressWriter

open Logged

variable {σ : Type} {codec : Compressor σ} {budget : Nat} {fresh : σ} {w w' : CompressWriter σ}
  {input : InWindow} {mode : EndMode} {consumed produced asked : Nat} {call : Option EndMode}
  {bound : (consumed asked : Nat) → Nat}

/-- The bytes that steps consumed, and those they produced. -/
def takenSize (ms : List Move) : Nat := (joined (ms.map (·.taken))).size

def givenSize (ms : List Move) : Nat := (joined (ms.map (·.given))).size

theorem takenSize_cons (m : Move) (ms : List Move) :
    takenSize (m :: ms) = m.taken.size + takenSize ms := by
  simp [takenSize]

theorem givenSize_cons (m : Move) (ms : List Move) :
    givenSize (m :: ms) = m.given.size + givenSize ms := by
  simp [givenSize]

theorem takenSize_append (ms ns : List Move) :
    takenSize (ms ++ ns) = takenSize ms + takenSize ns := by
  simp [takenSize]

theorem givenSize_append (ms ns : List Move) :
    givenSize (ms ++ ns) = givenSize ms + givenSize ns := by
  simp [givenSize]

/-- A writer that can stage a byte, with its codec on a metered run. -/
structure Running (codec : Compressor σ) (fresh : σ) (consumed produced asked : Nat)
    (call : Option EndMode) (w : CompressWriter σ) : Prop where
  space : 0 < w.staging.size
  run : codec.Metered fresh consumed produced asked call w.session

/-- A chunk of no bytes is made one of a single byte. -/
theorem running_create (codec : Compressor σ) (sink : Sink) (fresh : σ) (chunk : Nat) :
    Running codec fresh 0 0 0 none (create sink fresh chunk) := by
  refine ⟨?_, .fresh⟩
  change 0 < (Array.replicate (max chunk 1) (0 : UInt8)).size
  rw [Array.size_replicate]
  omega

theorem Running.begin (h : Running codec fresh consumed produced asked call w) (mode : EndMode)
    (asks : mode ≠ .more) : Running codec fresh consumed produced (asked + 1) (some mode) w :=
  ⟨h.space, h.run.begin mode asks⟩

theorem Running.feed (h : Running codec fresh consumed produced asked call w)
    (inside : input.Inside) (busy : input.left ≠ 0) :
    Running codec fresh (consumed + (w.move codec input .more).taken.size)
      (produced + (w.move codec input .more).given.size) asked none
      (w.step codec input .more).value.writer := by
  obtain ⟨-, -, -, session, staging⟩ := step_leaves codec w input .more
  refine ⟨staging ▸ h.space, ?_⟩
  rw [session]
  exact h.run.more input (.whole w.staging) inside (OutWindow.whole_inside _) busy

theorem Running.ask (h : Running codec fresh consumed produced asked (some mode) w) :
    Running codec fresh consumed (produced + (w.move codec idle mode).given.size) asked
      (if (w.move codec idle mode).code.isError ∨ (w.move codec idle mode).code = 0 then none
        else some mode)
      (w.step codec idle mode).value.writer := by
  obtain ⟨-, -, -, session, staging⟩ := step_leaves codec w idle mode
  refine ⟨staging ▸ h.space, ?_⟩
  rw [session]
  exact h.run.ask idle (.whole w.staging) idle_inside (OutWindow.whole_inside _) rfl

theorem Running.fed {p : InWindow × CompressWriter σ} {ps : List (InWindow × CompressWriter σ)}
    {b : Except Failure Unit × CompressWriter σ} (t : Turns (feedTurn codec) p ps b)
    (h : Running codec fresh consumed produced asked call p.2) (inside : p.1.Inside) :
    ∃ call, Running codec fresh (consumed + takenSize (fedMoves codec ps))
      (produced + givenSize (fedMoves codec ps)) asked call b.2 := by
  induction t generalizing consumed produced call with
  | @done p b last =>
    obtain ⟨input, w⟩ := p
    rcases feedTurn_eq_done last with ⟨idle, rfl⟩ | ⟨busy, f, failed, rfl⟩
    · rw [fedMoves_idle idle]
      exact ⟨call, h⟩
    · rw [fedMoves_busy busy, takenSize_cons, givenSize_cons]
      exact ⟨none, h.feed inside busy⟩
  | @again p p' ps b turn rest ih =>
    obtain ⟨input, w⟩ := p
    obtain ⟨-, inside', -⟩ := step_leaves codec w input .more
    obtain ⟨busy, -, rfl⟩ := feedTurn_eq_again turn
    obtain ⟨call, later⟩ := ih (h.feed inside busy) inside'
    refine ⟨call, ?_⟩
    rw [fedMoves_busy busy, takenSize_cons, givenSize_cons, ← Nat.add_assoc, ← Nat.add_assoc]
    exact later

theorem Running.drained {ws : List (CompressWriter σ)} {b : Except Failure Unit × CompressWriter σ}
    (t : Turns (drainTurn codec mode) w ws b)
    (h : Running codec fresh consumed produced asked (some mode) w) :
    ∃ call, Running codec fresh consumed (produced + givenSize (ws.map (·.move codec idle mode)))
      asked call b.2 := by
  induction t generalizing produced with
  | @done w b last =>
    have same : b.2 = (w.step codec idle mode).value.writer := by
      rcases drainTurn_eq_done last with ⟨-, rfl⟩ | ⟨f, -, rfl⟩ <;> rfl
    rw [same, List.map_singleton, givenSize_cons]
    exact ⟨_, h.ask⟩
  | @again w w' ws b turn rest ih =>
    obtain ⟨⟨hint, result, pending⟩, rfl⟩ := drainTurn_eq_again turn
    obtain ⟨fine, rfl⟩ := Move.result_eq_ok ((step_leaves codec w idle mode).1.symm.trans result)
    have goesOn := h.ask
    rw [if_neg (by simp [fine.1, pending])] at goesOn
    rw [List.map_cons, givenSize_cons, ← Nat.add_assoc]
    exact ih goesOn

def Call.asks : Call → Bool
  | .write _ | .writeAll _ => false
  | .flush => true

namespace Operation

def asks : Operation → Bool
  | .call c => c.asks
  | .finish => true

def bytes : Operation → ByteArray
  | .call c => c.bytes
  | .finish => .empty

end Operation

theorem Running.after_settled {p : Except Failure Unit × CompressWriter σ}
    (h : Running codec fresh consumed produced asked call p.2) :
    Running codec fresh consumed produced asked call (settled p).2 := by
  obtain ⟨result, w⟩ := p
  cases result with
  | error f => exact h
  | ok => exact ⟨h.space, h.run⟩

theorem Running.wrote {buf : ByteArray} {r : Logged (Except Failure Nat × CompressWriter σ)}
    (h : Running codec fresh consumed produced asked call w)
    (done : w.write codec budget buf = some r) :
    ∃ call, Running codec fresh (consumed + takenSize (w.feedMoves codec budget buf))
      (produced + givenSize (w.feedMoves codec budget buf)) asked call r.value.2 := by
  obtain ⟨loop, looped, rfl⟩ := Option.map_eq_some_iff.mp done
  exact h.fed (turns_of_repeatUntil looped) (Nat.zero_le _)

theorem takenSize_drainMoves (codec : Compressor σ) (budget : Nat) (w : CompressWriter σ)
    (mode : EndMode) : takenSize (w.drainMoves codec budget mode) = 0 := by
  have none : ∀ b ∈ (w.drainMoves codec budget mode).map (·.taken), b = .empty := by
    intro b hb
    obtain ⟨m, hm, rfl⟩ := List.mem_map.mp hb
    obtain ⟨w', -, rfl⟩ := List.mem_map.mp hm
    obtain ⟨-, -, left, -⟩ := step_leaves codec w' idle mode
    have nothing : idle.left = 0 := rfl
    apply ByteArray.size_eq_zero_iff.mp
    omega
  unfold takenSize
  rw [joined_of_empty none]
  rfl

theorem Running.drains {d : Logged (Except Failure Unit × CompressWriter σ)}
    (h : Running codec fresh consumed produced asked call w) (asks : mode ≠ .more)
    (done : w.drain codec budget mode = some d) :
    ∃ call, Running codec fresh (consumed + takenSize (w.drainMoves codec budget mode))
      (produced + givenSize (w.drainMoves codec budget mode)) (asked + 1) call
      (settled d.value).2 := by
  rw [takenSize_drainMoves]
  obtain ⟨call, drained⟩ := (h.begin mode asks).drained (turns_of_repeatUntil done)
  exact ⟨call, drained.after_settled⟩

theorem Running.perform (h : Running codec fresh consumed produced asked call w) (op : Operation)
    {x : Served} (done : w.perform codec budget op = some (x, w')) :
    ∃ call, Running codec fresh (consumed + takenSize x.moves) (produced + givenSize x.moves)
      (asked + op.asks.toNat) call w' := by
  match op with
  | .call (.write buf) =>
    obtain ⟨r, hr, he⟩ := Option.map_eq_some_iff.mp done
    cases he
    exact h.wrote hr
  | .call (.writeAll buf) =>
    obtain ⟨r, hr, he⟩ := Option.map_eq_some_iff.mp done
    cases he
    cases size : buf.isEmpty with
    | true =>
      unfold CompressWriter.writeAll at hr
      unfold writeAllMoves
      rw [size] at hr ⊢
      cases hr
      exact ⟨call, h⟩
    | false =>
      obtain ⟨fed, returned⟩ := write_of_writeAll size hr
      obtain ⟨⟨all, same, value⟩, moves⟩ := writeAll_of_write size returned
      obtain rfl := Option.some.inj (hr.symm.trans same)
      rw [moves, value]
      exact h.wrote returned
  | .call .flush =>
    obtain ⟨r, hr, he⟩ := Option.map_eq_some_iff.mp done
    cases he
    obtain ⟨d, hd, hv⟩ := flush_value hr
    rw [hv]
    exact h.drains (by decide) hd
  | .finish =>
    obtain ⟨r, hr, he⟩ := Option.map_eq_some_iff.mp done
    cases he
    obtain ⟨d, hd, hv⟩ := finish_value hr
    rw [hv]
    exact h.drains (by decide) hd

/-- What is left to take in and what the bound still allows, once all that is taken in. It falls
with every step after which feeding goes on. -/
structure FeedLeft (codec : Compressor σ) (fresh : σ) (bound : (consumed asked : Nat) → Nat)
    (asked n : Nat) (p : InWindow × CompressWriter σ) : Prop where
  inside : p.1.Inside
  running : ∃ consumed produced call, Running codec fresh consumed produced asked call p.2 ∧
    n = p.1.left + (bound (consumed + p.1.left) asked - produced)

section

variable (progresses : codec.Progresses) (mono : ∀ asked, Monotone (bound · asked))
  (atMost : codec.ProducesAtMost fresh bound)

include progresses atMost

include mono in
theorem FeedLeft.falls {n : Nat} {p next : InWindow × CompressWriter σ}
    (h : FeedLeft codec fresh bound asked n p) (turn : (feedTurn codec p).value = .again next) :
    ∃ n' < n, FeedLeft codec fresh bound asked n' next := by
  obtain ⟨input, w⟩ := p
  obtain ⟨inside, consumed, produced, call, running, rfl⟩ := h
  dsimp only at inside running ⊢
  obtain ⟨busy, ⟨hint, result⟩, rfl⟩ := feedTurn_eq_again turn
  obtain ⟨same, inside', left, -⟩ := step_leaves codec w input .more
  obtain ⟨fine, -⟩ := Move.result_eq_ok (same.symm.trans result)
  have fed := running.feed inside busy
  refine ⟨_, ?_, inside', _, _, _, fed, rfl⟩
  have moved : (w.move codec input .more).taken.size ≠ 0 ∨
      (w.move codec input .more).given.size ≠ 0 :=
    progresses.more w.session input (.whole w.staging) inside (OutWindow.whole_inside _) busy
      (Nat.ne_of_gt running.space) fine.1
  have within := atMost fed.run
  -- What is left moves over to what is consumed, so the bound stays the same, and it is no less
  -- than the one for what is consumed so far.
  have later : bound (consumed + (w.move codec input .more).taken.size) asked ≤
      bound (consumed + (w.move codec input .more).taken.size +
        (w.step codec input .more).value.input.left) asked := mono asked (Nat.le_add_right _ _)
  rw [Nat.add_assoc, ← left] at later
  change (w.step codec input .more).value.input.left + _ < _
  rw [Nat.add_assoc, ← left]
  omega

include mono in
theorem Running.write_returns (h : Running codec fresh consumed produced asked call w)
    (buf : ByteArray) :
    let limit := buf.size + (bound (consumed + buf.size) asked - produced) + 1
    ∃ (ms : List Move) (result : Except Failure Unit) (w' : CompressWriter σ),
      ms.length ≤ limit ∧
      ∀ budget, limit ≤ budget → w.feedMoves codec budget buf = ms ∧
        ∃ r, w.write codec budget buf = some r ∧
          r.value = (result.map fun () => buf.size, w') := by
  intro limit
  have start : FeedLeft codec fresh bound asked (buf.size +
      (bound (consumed + buf.size) asked - produced)) (⟨buf, 0⟩, w) :=
    ⟨Nat.zero_le _, consumed, produced, call, h, rfl⟩
  obtain ⟨ps, b, turns, length⟩ :=
    exists_turns_of_falls (FeedLeft.falls progresses mono atMost) start
  refine ⟨fedMoves codec ps, b.1, b.2, ?_, ?_⟩
  · exact Nat.le_trans (List.length_filterMap_le _ _) length
  · intro budget enough
    have enough := Nat.le_trans length enough
    refine ⟨?_, write_of_turns turns enough⟩
    exact congrArg (fedMoves codec) (turns.visited enough)

/-- What the bound still allows. It falls with every step after which the asking goes on. -/
structure DrainLeft (codec : Compressor σ) (fresh : σ) (bound : (consumed asked : Nat) → Nat)
    (consumed asked : Nat) (mode : EndMode) (n : Nat) (w : CompressWriter σ) : Prop where
  running : ∃ produced, Running codec fresh consumed produced asked (some mode) w ∧
    n = bound consumed asked - produced

theorem DrainLeft.falls (asks : mode ≠ .more) {n : Nat}
    (h : DrainLeft codec fresh bound consumed asked mode n w)
    (turn : (drainTurn codec mode w).value = .again w') :
    ∃ n' < n, DrainLeft codec fresh bound consumed asked mode n' w' := by
  obtain ⟨produced, running, rfl⟩ := h
  obtain ⟨⟨hint, result, pending⟩, rfl⟩ := drainTurn_eq_again turn
  obtain ⟨fine, rfl⟩ := Move.result_eq_ok ((step_leaves codec w idle mode).1.symm.trans result)
  have goesOn := running.ask
  rw [if_neg (by simp [fine.1, pending])] at goesOn
  refine ⟨_, ?_, _, goesOn, rfl⟩
  have moved : (w.move codec idle mode).given.size ≠ 0 :=
    progresses.asked w.session idle (.whole w.staging) mode idle_inside (OutWindow.whole_inside _)
      asks rfl (Nat.ne_of_gt running.space) fine.1 pending
  have within := atMost goesOn.run
  omega

theorem Running.drain_returns (h : Running codec fresh consumed produced asked call w)
    (asks : mode ≠ .more) :
    let limit := bound consumed (asked + 1) - produced + 1
    ∃ ms p, ms.length ≤ limit ∧ ∀ budget, limit ≤ budget → w.drainMoves codec budget mode = ms ∧
      ∃ d, w.drain codec budget mode = some d ∧ d.value = p := by
  intro limit
  have start : DrainLeft codec fresh bound consumed (asked + 1) mode
      (bound consumed (asked + 1) - produced) w := ⟨produced, h.begin mode asks, rfl⟩
  obtain ⟨ws, b, turns, length⟩ :=
    exists_turns_of_falls (DrainLeft.falls progresses atMost asks) start
  refine ⟨ws.map (·.move codec idle mode), b, ?_, ?_⟩
  · rw [List.length_map]
    exact length
  · intro budget enough
    have enough := Nat.le_trans length enough
    refine ⟨?_, turns.repeatUntil enough⟩
    exact congrArg (List.map _) (turns.visited enough)

include mono in
/-- An operation returns, and its steps are limited. -/
theorem Running.returns (h : Running codec fresh consumed produced asked call w) (op : Operation) :
    let limit := op.bytes.size +
      (bound (consumed + op.bytes.size) (asked + op.asks.toNat) - produced) + 1
    ∃ x w', x.moves.length ≤ limit ∧
      ∀ budget, limit ≤ budget → w.perform codec budget op = some (x, w') := by
  match op with
  | .call (.write buf) =>
    obtain ⟨ms, result, w', length, ends⟩ := h.write_returns progresses mono atMost buf
    refine ⟨⟨(result.map fun () => buf.size).map some, ms⟩, w', length, ?_⟩
    intro budget enough
    obtain ⟨moves, r, returned, value⟩ := ends budget enough
    change (w.write codec budget buf).map _ = _
    rw [returned, Option.map_some, value, moves]
  | .call (.writeAll buf) =>
    cases size : buf.isEmpty with
    | true =>
      refine ⟨⟨.ok none, []⟩, w, Nat.zero_le _, ?_⟩
      intro budget enough
      change (w.writeAll codec budget buf).map _ = _
      unfold CompressWriter.writeAll writeAllMoves
      rw [size]
      rfl
    | false =>
      obtain ⟨ms, result, w', length, ends⟩ := h.write_returns progresses mono atMost buf
      refine ⟨⟨result.map fun () => none, ms⟩, w', length, ?_⟩
      intro budget enough
      obtain ⟨moves, r, returned, value⟩ := ends budget enough
      obtain ⟨⟨done, same, answer⟩, once⟩ := writeAll_of_write size returned
      change (w.writeAll codec budget buf).map _ = _
      rw [same, Option.map_some, answer, value, once, moves]
      cases result <;> rfl
  | .call .flush =>
    have asks : EndMode.flush ≠ .more := by decide
    obtain ⟨ms, p, length, ends⟩ := h.drain_returns progresses atMost asks
    simp only [Operation.bytes, Call.bytes, ByteArray.size_empty, Nat.zero_add, Nat.add_zero]
    refine ⟨⟨(settled p).1.map fun () => none, ms⟩, (settled p).2, length, ?_⟩
    intro budget enough
    obtain ⟨moves, d, drained, value⟩ := ends budget enough
    obtain ⟨r, returned, same⟩ := flush_of_drain drained
    change (w.flush codec budget).map _ = _
    rw [returned, Option.map_some, same, value, moves]
  | .finish =>
    have asks : EndMode.finish ≠ .more := by decide
    obtain ⟨ms, p, length, ends⟩ := h.drain_returns progresses atMost asks
    simp only [Operation.bytes, ByteArray.size_empty, Nat.zero_add, Nat.add_zero]
    refine ⟨⟨(settled p).1.map fun () => none, ms⟩, (settled p).2, length, ?_⟩
    intro budget enough
    obtain ⟨moves, d, drained, value⟩ := ends budget enough
    obtain ⟨r, returned, same⟩ := finish_of_drain drained
    change (w.finish codec budget).map _ = _
    rw [returned, Option.map_some, same, value, moves]

end

theorem Running.serveAll {calls : List Call} {log : List Served}
    (h : Running codec fresh consumed produced asked call w)
    (served : w.serveAll codec budget calls = some (log, w')) :
    ∃ call, Running codec fresh (consumed + takenSize (log.flatMap (·.moves)))
      (produced + givenSize (log.flatMap (·.moves))) (asked + calls.countP (·.asks)) call w' := by
  induction calls generalizing w log consumed produced asked call with
  | nil =>
    cases served
    exact ⟨call, h⟩
  | cons c calls ih =>
    obtain ⟨x, w₁, xs, first, others, rfl⟩ := serveAll_cons served
    obtain ⟨call, running⟩ := h.perform (.call c) first
    obtain ⟨call, later⟩ := ih running others
    refine ⟨call, ?_⟩
    have count : asked + (c :: calls).countP (·.asks) =
        asked + c.asks.toNat + calls.countP (·.asks) := by
      rw [List.countP_cons]
      cases c.asks
      · rfl
      · simp only [Bool.toNat_true, if_true]
        omega
    rw [count, List.flatMap_cons, takenSize_append, givenSize_append, ← Nat.add_assoc,
      ← Nat.add_assoc]
    exact later

/-- Whatever was called before and however it ended, an operation returns. Its calls of the codec
are at most one more than the bytes it brings and those that the codec may still produce once it has
consumed them all. A codec that keeps a record of its calls is called for the steps of the run and
of the operation, and for nothing else. -/
theorem returns_within (codec : Compressor σ) (progresses : codec.Progresses) (fresh : σ)
    (bound : (consumed asked : Nat) → Nat) (mono : ∀ asked, Monotone (bound · asked))
    (atMost : codec.ProducesAtMost fresh bound) (sink : Sink) (chunk budget : Nat)
    (calls : List Call) (log : List Served) (w : CompressWriter σ)
    (served : (create sink fresh chunk).serveAll codec budget calls = some (log, w))
    (op : Operation) :
    let steps := log.flatMap (·.moves)
    let limit := op.bytes.size + (bound (takenSize steps + op.bytes.size)
      (calls.countP (·.asks) + op.asks.toNat) - givenSize steps) + 1
    ∃ before, Sees before steps ∧
      ((create sink fresh chunk).watching []).serveAll codec.watched budget calls =
        some (log, w.watching before) ∧
      ∃ x w', x.moves.length ≤ limit ∧
        ∀ budget, limit ≤ budget → w.perform codec budget op = some (x, w') ∧
          ∃ saw, saw.length ≤ limit ∧ Sees saw x.moves ∧
            (w.watching before).perform codec.watched budget op =
              some (x, w'.watching (before ++ saw)) := by
  intro steps limit
  obtain ⟨call, running⟩ := (running_create codec sink fresh chunk).serveAll served
  simp only [Nat.zero_add] at running
  obtain ⟨x, w', length, returns⟩ := running.returns progresses mono atMost op
  obtain ⟨before, sees, watched⟩ := serveAll_watching served []
  refine ⟨before, sees, watched, x, w', length, fun budget enough => ?_⟩
  have done := returns budget enough
  obtain ⟨saw, sees', again⟩ := perform_watching done before
  exact ⟨done, saw, sees'.length ▸ length, sees', again⟩

/-- What the codec consumed and produced in calls. -/
def usage (codec : Compressor σ) (budget : Nat) (w : CompressWriter σ) (calls : List Call) :
    Option (Nat × Nat) :=
  (w.serveAll codec budget calls).map fun (log, _) =>
    (takenSize (log.flatMap (·.moves)), givenSize (log.flatMap (·.moves)))

/-- A writer that asks for a staging area of no bytes, and whose sink takes single bytes. -/
def narrow : CompressWriter Blocks.Packer := create { steady := 1 } {} 0

/-- A flush after three bytes leaves at most three bytes to produce, and four calls to close. -/
theorem returns_within_narrow :
    ∃ log w before, narrow.serveAll (Blocks.compressor 2) 8 [.write ⟨#[1, 2, 3]⟩, .flush] =
        some (log, w) ∧ Sees before (log.flatMap (·.moves)) ∧
      takenSize (log.flatMap (·.moves)) = 3 ∧ givenSize (log.flatMap (·.moves)) = 5 ∧
      ∃ x w', x.moves.length ≤ 4 ∧
        ∀ budget, 4 ≤ budget → w.perform (Blocks.compressor 2) budget .finish = some (x, w') ∧
          ∃ saw, saw.length ≤ 4 ∧ Sees saw x.moves ∧
            (w.watching before).perform (Blocks.compressor 2).watched budget .finish =
              some (x, w'.watching (before ++ saw)) := by
  have run : usage (Blocks.compressor 2) 8 narrow [.write ⟨#[1, 2, 3]⟩, .flush] =
      some (3, 5) := by decide +kernel
  obtain ⟨⟨log, w⟩, served, sizes⟩ := Option.map_eq_some_iff.mp run
  obtain ⟨taken, given⟩ := Prod.mk.inj sizes
  obtain ⟨before, sees, -, returns⟩ := returns_within (Blocks.compressor 2)
    (Blocks.compressor_progresses 2) {} _
    (fun asked _ _ le => Nat.add_le_add_right (Nat.mul_le_mul_left 2 le) asked)
    (Blocks.producesAtMost 2) _ 0 8 _ log w served .finish
  rw [taken, given] at returns
  exact ⟨log, w, before, served, sees, taken, given, returns⟩

end Sluice.CompressWriter
