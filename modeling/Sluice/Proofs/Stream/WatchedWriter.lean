import Sluice.Proofs.Step
import Sluice.Proofs.Stream.WriterCalls

namespace Sluice.CompressWriter

open Logged

variable {σ : Type} {codec : Compressor σ} {budget : Nat} {w w' : CompressWriter σ}
  {mode : EndMode} {saw later : List Sight} {ms ns : List Move}

/-- The same writer over a codec that keeps a record of what it was shown. -/
def watching (w : CompressWriter σ) (seen : List Sight) : CompressWriter (σ × List Sight) :=
  { sink := w.sink, session := (w.session, seen), staging := w.staging
    totalIn := w.totalIn, totalOut := w.totalOut }

/-- The calls on record are those of the steps, and no others. -/
def Sees (saw : List Sight) (ms : List Move) : Prop :=
  saw.map (fun s => (s.input, s.mode)) = ms.map fun m => (m.input, some m.mode)

theorem Sees.nil : Sees [] [] := rfl

theorem Sees.append (first : Sees saw ms) (second : Sees later ns) :
    Sees (saw ++ later) (ms ++ ns) := by
  unfold Sees
  rw [List.map_append, List.map_append, first, second]

theorem Sees.length (h : Sees saw ms) : saw.length = ms.length := by
  simpa using congrArg List.length h

def sight (w : CompressWriter σ) (input : InWindow) (mode : EndMode) : Sight :=
  ⟨input, _, .whole w.staging, some mode⟩

theorem sees_move (codec : Compressor σ) (w : CompressWriter σ) (input : InWindow)
    (mode : EndMode) : Sees [w.sight input mode] [w.move codec input mode] := rfl

theorem step_watching (codec : Compressor σ) (w : CompressWriter σ) (input : InWindow)
    (mode : EndMode) (seen : List Sight) :
    let e := (w.step codec input mode).value
    ((w.watching seen).step codec.watched input mode).value =
      ⟨e.result, e.input, e.writer.watching (seen ++ [w.sight input mode])⟩ := by
  intro e
  have same : (w.watching seen).move codec.watched input mode = w.move codec input mode := rfl
  cases hs : (w.move codec input mode).sent with
  | error f =>
    have value : e = _ := step_unsent hs
    rw [value, step_unsent (w := w.watching seen) (same ▸ hs)]
    rfl
  | ok =>
    have value : e = _ := step_sent hs
    rw [value, step_sent (w := w.watching seen) (same ▸ hs)]
    rfl

/-- Feeding over the watched codec takes the same turns and gives the same answer. -/
theorem fed_watching {p : InWindow × CompressWriter σ} {ps : List (InWindow × CompressWriter σ)}
    {b : Except Failure Unit × CompressWriter σ} (t : Turns (feedTurn codec) p ps b)
    (seen : List Sight) :
    ∃ saw qs, Sees saw (fedMoves codec ps) ∧ qs.length = ps.length ∧
      fedMoves codec.watched qs = fedMoves codec ps ∧
      Turns (feedTurn codec.watched) (p.1, p.2.watching seen) qs
        (b.1, b.2.watching (seen ++ saw)) := by
  induction t generalizing seen with
  | @done p b last =>
    obtain ⟨input, w⟩ := p
    have step := step_watching codec w input .more seen
    rcases feedTurn_eq_done last with ⟨idle, rfl⟩ | ⟨busy, f, failed, rfl⟩
    · refine ⟨[], _, ?_, rfl, ?_, .done ?_⟩
      · rw [fedMoves_idle idle]
        exact .nil
      · rw [fedMoves_idle idle, fedMoves_idle idle]
        rfl
      · rw [feedTurn_idle idle, List.append_nil]
    · refine ⟨[w.sight input .more], _, ?_, rfl, ?_, .done ?_⟩
      · rw [fedMoves_busy busy]
        exact sees_move codec w input .more
      · rw [fedMoves_busy busy, fedMoves_busy busy]
        rfl
      · rw [feedTurn_busy busy, step]
        simp only [failed]
  | @again p p' ps b turn rest ih =>
    obtain ⟨input, w⟩ := p
    obtain ⟨busy, ⟨hint, fine⟩, rfl⟩ := feedTurn_eq_again turn
    have step := step_watching codec w input .more seen
    obtain ⟨saw, qs, sees, length, same, turns⟩ := ih (seen ++ [w.sight input .more])
    rw [List.append_assoc] at turns
    refine ⟨_, _, ?_, congrArg (· + 1) length, ?_, .again ?_ turns⟩
    · rw [fedMoves_busy busy]
      exact (sees_move codec w input .more).append sees
    · rw [fedMoves_busy busy, fedMoves_busy busy, same]
      rfl
    · rw [feedTurn_busy busy, step]
      simp only [fine]

theorem drained_watching {ws : List (CompressWriter σ)}
    {b : Except Failure Unit × CompressWriter σ} (t : Turns (drainTurn codec mode) w ws b)
    (seen : List Sight) :
    ∃ saw ws', Sees saw (ws.map (·.move codec idle mode)) ∧ ws'.length = ws.length ∧
      ws'.map (·.move codec.watched idle mode) = ws.map (·.move codec idle mode) ∧
      Turns (drainTurn codec.watched mode) (w.watching seen) ws'
        (b.1, b.2.watching (seen ++ saw)) := by
  induction t generalizing seen with
  | @done w b last =>
    have step := step_watching codec w idle mode seen
    refine ⟨[w.sight idle mode], _, sees_move codec w idle mode, rfl, rfl, .done ?_⟩
    rw [drainTurn_value, step]
    rcases drainTurn_eq_done last with ⟨zero, rfl⟩ | ⟨f, failed, rfl⟩
    · simp only [zero, if_true]
    · simp only [failed]
  | @again w w' ws b turn rest ih =>
    obtain ⟨⟨hint, fine, pending⟩, rfl⟩ := drainTurn_eq_again turn
    have step := step_watching codec w idle mode seen
    obtain ⟨saw, ws', sees, length, same, turns⟩ := ih (seen ++ [w.sight idle mode])
    rw [List.append_assoc] at turns
    refine ⟨_, w.watching seen :: ws', (sees_move codec w idle mode).append sees,
      congrArg (· + 1) length, congrArg (w.move codec idle mode :: ·) same, .again ?_ turns⟩
    rw [drainTurn_value, step]
    simp only [fine, if_neg pending]

theorem write_watching {buf : ByteArray} {r : Logged (Except Failure Nat × CompressWriter σ)}
    (h : w.write codec budget buf = some r) (seen : List Sight) :
    ∃ saw r', Sees saw (w.feedMoves codec budget buf) ∧
      (w.watching seen).feedMoves codec.watched budget buf = w.feedMoves codec budget buf ∧
      (w.watching seen).write codec.watched budget buf = some r' ∧
      r'.value = (r.value.1, r.value.2.watching (seen ++ saw)) := by
  obtain ⟨fed, looped, rfl⟩ := Option.map_eq_some_iff.mp h
  obtain ⟨saw, qs, sees, length, same, turns⟩ := fed_watching (turns_of_repeatUntil looped) seen
  have enough : qs.length ≤ budget := length ▸ length_visited_le _ _ _
  obtain ⟨r', returned, value⟩ := write_of_turns turns enough
  refine ⟨saw, r', sees, ?_, returned, value⟩
  exact (congrArg (fedMoves codec.watched) (turns.visited enough)).trans same

theorem drain_watching {d : Logged (Except Failure Unit × CompressWriter σ)}
    (h : w.drain codec budget mode = some d) (seen : List Sight) :
    ∃ saw d', Sees saw (w.drainMoves codec budget mode) ∧
      (w.watching seen).drainMoves codec.watched budget mode = w.drainMoves codec budget mode ∧
      (w.watching seen).drain codec.watched budget mode = some d' ∧
      d'.value = (d.value.1, d.value.2.watching (seen ++ saw)) := by
  obtain ⟨saw, ws, sees, length, same, turns⟩ := drained_watching (turns_of_repeatUntil h) seen
  have enough : ws.length ≤ budget := length ▸ length_visited_le _ _ _
  obtain ⟨d', drained, value⟩ := turns.repeatUntil enough
  refine ⟨saw, d', sees, ?_, drained, value⟩
  exact (congrArg (List.map _) (turns.visited enough)).trans same

theorem settled_watching (p : Except Failure Unit × CompressWriter σ) (seen : List Sight) :
    settled (p.1, p.2.watching seen) = ((settled p).1, (settled p).2.watching seen) := by
  obtain ⟨result, w⟩ := p
  cases result <;> rfl

theorem flush_watching {r : Logged (Except Failure Unit × CompressWriter σ)}
    (h : w.flush codec budget = some r) (seen : List Sight) :
    ∃ saw r', Sees saw (w.drainMoves codec budget .flush) ∧
      (w.watching seen).drainMoves codec.watched budget .flush = w.drainMoves codec budget .flush ∧
      (w.watching seen).flush codec.watched budget = some r' ∧
      r'.value = (r.value.1, r.value.2.watching (seen ++ saw)) := by
  obtain ⟨d, hd, hv⟩ := flush_value h
  obtain ⟨saw, d', sees, same, drained, value⟩ := drain_watching hd seen
  obtain ⟨r', returned, hv'⟩ := flush_of_drain drained
  exact ⟨saw, r', sees, same, returned, by rw [hv', value, settled_watching, hv]⟩

theorem finish_watching {r : Logged (Except Failure Unit × CompressWriter σ)}
    (h : w.finish codec budget = some r) (seen : List Sight) :
    ∃ saw r', Sees saw (w.drainMoves codec budget .finish) ∧
      (w.watching seen).drainMoves codec.watched budget .finish =
        w.drainMoves codec budget .finish ∧
      (w.watching seen).finish codec.watched budget = some r' ∧
      r'.value = (r.value.1, r.value.2.watching (seen ++ saw)) := by
  obtain ⟨d, hd, hv⟩ := finish_value h
  obtain ⟨saw, d', sees, same, drained, value⟩ := drain_watching hd seen
  obtain ⟨r', returned, hv'⟩ := finish_of_drain drained
  exact ⟨saw, r', sees, same, returned, by rw [hv', value, settled_watching, hv]⟩

/-- An operation over a watched codec returns as it did, and the codec was called for its steps and
for nothing else. -/
theorem perform_watching {op : Operation} {x : Served}
    (h : w.perform codec budget op = some (x, w')) (seen : List Sight) :
    ∃ saw, Sees saw x.moves ∧
      (w.watching seen).perform codec.watched budget op = some (x, w'.watching (seen ++ saw)) := by
  match op with
  | .call (.write buf) =>
    obtain ⟨r, hr, he⟩ := Option.map_eq_some_iff.mp h
    cases he
    obtain ⟨saw, r', sees, same, returned, value⟩ := write_watching hr seen
    refine ⟨saw, sees, ?_⟩
    change ((w.watching seen).write codec.watched budget buf).map _ = _
    rw [returned, Option.map_some, value, same]
  | .call (.writeAll buf) =>
    obtain ⟨r, hr, he⟩ := Option.map_eq_some_iff.mp h
    cases he
    cases size : buf.isEmpty with
    | true =>
      unfold CompressWriter.writeAll at hr
      rw [size] at hr
      cases hr
      refine ⟨[], ?_, ?_⟩
      · unfold writeAllMoves
        rw [size]
        exact .nil
      · change ((w.watching seen).writeAll codec.watched budget buf).map _ = _
        unfold CompressWriter.writeAll writeAllMoves
        rw [size, List.append_nil]
        rfl
    | false =>
      obtain ⟨fed, returned⟩ := write_of_writeAll size hr
      obtain ⟨⟨all, once, answer⟩, moves⟩ := writeAll_of_write size returned
      obtain rfl := Option.some.inj (hr.symm.trans once)
      obtain ⟨saw, fed', sees, same, returned', value⟩ := write_watching returned seen
      obtain ⟨⟨all', once', answer'⟩, moves'⟩ := writeAll_of_write size returned'
      refine ⟨saw, moves.symm ▸ sees, ?_⟩
      change ((w.watching seen).writeAll codec.watched budget buf).map _ = _
      rw [once', Option.map_some, answer', value, moves', same, moves, answer]
  | .call .flush =>
    obtain ⟨r, hr, he⟩ := Option.map_eq_some_iff.mp h
    cases he
    obtain ⟨saw, r', sees, same, returned, value⟩ := flush_watching hr seen
    refine ⟨saw, sees, ?_⟩
    change ((w.watching seen).flush codec.watched budget).map _ = _
    rw [returned, Option.map_some, value, same]
  | .finish =>
    obtain ⟨r, hr, he⟩ := Option.map_eq_some_iff.mp h
    cases he
    obtain ⟨saw, r', sees, same, returned, value⟩ := finish_watching hr seen
    refine ⟨saw, sees, ?_⟩
    change ((w.watching seen).finish codec.watched budget).map _ = _
    rw [returned, Option.map_some, value, same]

theorem serveAll_watching {calls : List Call} {log : List Served}
    (h : w.serveAll codec budget calls = some (log, w')) (seen : List Sight) :
    ∃ saw, Sees saw (log.flatMap (·.moves)) ∧
      (w.watching seen).serveAll codec.watched budget calls =
        some (log, w'.watching (seen ++ saw)) := by
  induction calls generalizing w log seen with
  | nil =>
    cases h
    exact ⟨[], .nil, by rw [List.append_nil]; rfl⟩
  | cons c calls ih =>
    obtain ⟨x, w₁, xs, first, others, rfl⟩ := serveAll_cons h
    change w.perform codec budget (.call c) = _ at first
    obtain ⟨saw, sees, served⟩ := perform_watching first seen
    obtain ⟨later, sees', rest⟩ := ih others (seen ++ saw)
    rw [List.append_assoc] at rest
    refine ⟨saw ++ later, sees.append sees', ?_⟩
    change ((w.watching seen).serve codec.watched budget c).bind _ = _
    change (w.watching seen).serve codec.watched budget c = _ at served
    rw [served, Option.bind_some]
    change ((w₁.watching (seen ++ saw)).serveAll codec.watched budget calls).bind _ = _
    rw [rest]
    rfl

end Sluice.CompressWriter
