import Sluice.Proofs.Stream.Trails

namespace Sluice.CompressWriter

variable {σ : Type} {codec : Compressor σ} {budget : Nat} {w w' : CompressWriter σ}

inductive Call
  | write (buf : ByteArray)
  | writeAll (buf : ByteArray)
  | flush

def Call.bytes : Call → ByteArray
  | write buf | writeAll buf => buf
  | flush => .empty

/-- What a caller sees of a call, the count if it is a write, and the codec steps behind it. -/
structure Served where
  answer : Except Failure (Option Nat)
  moves : List Move

def serve (codec : Compressor σ) (budget : Nat) (w : CompressWriter σ) :
    Call → Option (Served × CompressWriter σ)
  | .write buf => (w.write codec budget buf).map fun r =>
    (⟨r.value.1.map some, w.feedMoves codec budget buf⟩, r.value.2)
  | .writeAll buf => (w.writeAll codec budget buf).map fun r =>
    (⟨r.value.1.map fun () => none, w.writeAllMoves codec budget buf⟩, r.value.2)
  | .flush => (w.flush codec budget).map fun r =>
    (⟨r.value.1.map fun () => none, w.drainMoves codec budget .flush⟩, r.value.2)

/-- Calls one after the other; `none` if one of them does not return. -/
def serveAll (codec : Compressor σ) (budget : Nat) (w : CompressWriter σ) :
    List Call → Option (List Served × CompressWriter σ)
  | [] => some ([], w)
  | c :: cs => do
    let (first, w) ← w.serve codec budget c
    let (others, w) ← w.serveAll codec budget cs
    return (first :: others, w)

/-- After draining, successful or not, the sink is flushed or left alone. -/
def settled : Except Failure Unit × CompressWriter σ → Except Failure Unit × CompressWriter σ
  | (.ok (), w) => w.flushSink
  | failed => failed

theorem flush_value {r : Logged (Except Failure Unit × CompressWriter σ)}
    (h : w.flush codec budget = some r) :
    ∃ d, w.drain codec budget .flush = some d ∧ r.value = settled d.value := by
  obtain ⟨d, hd, rfl⟩ := Option.map_eq_some_iff.mp h
  refine ⟨d, hd, ?_⟩
  obtain ⟨⟨result, w'⟩, events⟩ := d
  cases result <;> rfl

theorem finish_value {r : Logged (Except Failure Unit × CompressWriter σ)}
    (h : w.finish codec budget = some r) :
    ∃ d, w.drain codec budget .finish = some d ∧ r.value = settled d.value := by
  obtain ⟨d, hd, rfl⟩ := Option.map_eq_some_iff.mp h
  refine ⟨d, hd, ?_⟩
  obtain ⟨⟨result, w'⟩, events⟩ := d
  cases result with
  | error f => rfl
  | ok =>
    simp only [Logged.value_bind]
    split <;> rfl

theorem flush_of_drain {d : Logged (Except Failure Unit × CompressWriter σ)}
    (h : w.drain codec budget .flush = some d) :
    ∃ r, w.flush codec budget = some r ∧ r.value = settled d.value := by
  obtain ⟨r, hr⟩ : ∃ r, w.flush codec budget = some r := ⟨_, congrArg (Option.map _) h⟩
  obtain ⟨e, he, value⟩ := flush_value hr
  cases h.symm.trans he
  exact ⟨r, hr, value⟩

theorem finish_of_drain {d : Logged (Except Failure Unit × CompressWriter σ)}
    (h : w.drain codec budget .finish = some d) :
    ∃ r, w.finish codec budget = some r ∧ r.value = settled d.value := by
  obtain ⟨r, hr⟩ : ∃ r, w.finish codec budget = some r := ⟨_, congrArg (Option.map _) h⟩
  obtain ⟨e, he, value⟩ := finish_value hr
  cases h.symm.trans he
  exact ⟨r, hr, value⟩

theorem settled_ok {p : Except Failure Unit × CompressWriter σ} (h : (settled p).1 = .ok ()) :
    p.1 = .ok () ∧ (settled p).2 = p.2.flushSink.2 := by
  obtain ⟨result, w⟩ := p
  cases result with
  | error f => cases h
  | ok => exact ⟨rfl, rfl⟩

theorem Draining.trail_settled {mode : EndMode} {ms : List Move}
    {p : Except Failure Unit × CompressWriter σ} (h : Draining codec w mode ms p.1 p.2) :
    Trail codec w ms (settled p).2 := by
  obtain ⟨result, w'⟩ := p
  cases result with
  | error f => exact h.trail
  | ok => exact h.trail.flushed

/-- What can be asked of a writer. No operation follows `finish`, whatever it answered. -/
inductive Operation
  | call (c : Call)
  | finish

def perform (codec : Compressor σ) (budget : Nat) (w : CompressWriter σ) :
    Operation → Option (Served × CompressWriter σ)
  | .call c => w.serve codec budget c
  | .finish => (w.finish codec budget).map fun r =>
    (⟨r.value.1.map fun () => none, w.drainMoves codec budget .finish⟩, r.value.2)

/-- All that an operation can do. -/
inductive Performed (codec : Compressor σ) (w : CompressWriter σ) :
    Operation → Served → CompressWriter σ → Prop
  | write {buf : ByteArray} {ms : List Move} {result : Except Failure Unit}
    {w' : CompressWriter σ} (feeding : Feeding codec w ⟨buf, 0⟩ ms result w') :
    Performed codec w (.call (.write buf)) ⟨result.map fun () => some buf.size, ms⟩ w'
  | writeAll {buf : ByteArray} {ms : List Move} {result : Except Failure Unit}
    {w' : CompressWriter σ} (feeding : Feeding codec w ⟨buf, 0⟩ ms result w') :
    Performed codec w (.call (.writeAll buf)) ⟨result.map fun () => none, ms⟩ w'
  | flush {ms : List Move} {p : Except Failure Unit × CompressWriter σ}
    (draining : Draining codec w .flush ms p.1 p.2) :
    Performed codec w (.call .flush) ⟨(settled p).1.map fun () => none, ms⟩ (settled p).2
  | finish {ms : List Move} {p : Except Failure Unit × CompressWriter σ}
    (draining : Draining codec w .finish ms p.1 p.2) :
    Performed codec w .finish ⟨(settled p).1.map fun () => none, ms⟩ (settled p).2

theorem write_value {buf : ByteArray} {r : Logged (Except Failure Nat × CompressWriter σ)}
    (h : w.write codec budget buf = some r) :
    r.value.1 = (r.value.1.map fun _ => ()).map fun () => buf.size := by
  obtain ⟨⟨⟨result, w'⟩, events⟩, -, rfl⟩ := Option.map_eq_some_iff.mp h
  cases result <;> rfl

theorem performed (obeys : codec.Obeys) (op : Operation) {x : Served}
    (h : w.perform codec budget op = some (x, w')) : Performed codec w op x w' := by
  match op with
  | .call (.write buf) =>
    obtain ⟨r, hr, he⟩ := Option.map_eq_some_iff.mp h
    cases he
    have feeding := feeding_write obeys hr
    have value := write_value hr
    generalize r.value.1.map (fun _ => ()) = result at feeding value
    rw [value]
    cases result with
    | error f => exact .write feeding
    | ok => exact .write feeding
  | .call (.writeAll buf) =>
    obtain ⟨r, hr, he⟩ := Option.map_eq_some_iff.mp h
    cases he
    exact .writeAll (feeding_writeAll obeys hr)
  | .call .flush =>
    obtain ⟨r, hr, he⟩ := Option.map_eq_some_iff.mp h
    cases he
    obtain ⟨d, hd, hv⟩ := flush_value hr
    rw [hv]
    exact .flush (draining_drain obeys hd)
  | .finish =>
    obtain ⟨r, hr, he⟩ := Option.map_eq_some_iff.mp h
    cases he
    obtain ⟨d, hd, hv⟩ := finish_value hr
    rw [hv]
    exact .finish (draining_drain obeys hd)

theorem Performed.trail {op : Operation} {x : Served} (h : Performed codec w op x w') :
    Trail codec w x.moves w' := by
  cases h with
  | write feeding => exact feeding.trail
  | writeAll feeding => exact feeding.trail
  | flush draining => exact draining.trail_settled
  | finish draining => exact draining.trail_settled

theorem trail_serve (obeys : codec.Obeys) {c : Call} {x : Served}
    (h : w.serve codec budget c = some (x, w')) : Trail codec w x.moves w' :=
  (performed obeys (.call c) h).trail

theorem serveAll_cons {c : Call} {cs : List Call} {log : List Served}
    (h : w.serveAll codec budget (c :: cs) = some (log, w')) :
    ∃ x w₁ xs, w.serve codec budget c = some (x, w₁) ∧
      w₁.serveAll codec budget cs = some (xs, w') ∧ log = x :: xs := by
  obtain ⟨⟨x, w₁⟩, hx, h⟩ := Option.bind_eq_some_iff.mp h
  obtain ⟨⟨xs, w₂⟩, hxs, h⟩ := Option.bind_eq_some_iff.mp h
  cases h
  exact ⟨x, w₁, xs, hx, hxs, rfl⟩

theorem trail_serveAll (obeys : codec.Obeys) {cs : List Call} {log : List Served}
    (h : w.serveAll codec budget cs = some (log, w')) :
    Trail codec w (log.flatMap (·.moves)) w' := by
  induction cs generalizing w log with
  | nil =>
    cases h
    exact .refl _
  | cons c cs ih =>
    obtain ⟨x, w₁, xs, hx, hxs, rfl⟩ := serveAll_cons h
    exact (trail_serve obeys hx).trans (ih hxs)

/-- A run of calls and the closing after it: whether all calls succeeded, whether the stream is
reported closed, what its sink holds, and what the codec produced. -/
def outcome (codec : Compressor σ) (budget : Nat) (w : CompressWriter σ) (calls : List Call) :
    Option (Bool × Bool × ByteArray × ByteArray) := do
  let (log, w') ← w.serveAll codec budget calls
  let r ← w'.finish codec budget
  let produced := log.flatMap (·.moves) ++ w'.drainMoves codec budget .finish
  return (log.all (·.answer.isOk), r.value.1.isOk, r.value.2.sink.accepted,
    joined (produced.map (·.given)))

theorem outcome_eq_some {calls : List Call} {all : Bool} {accepted given : ByteArray}
    (h : outcome codec budget w calls = some (all, true, accepted, given)) :
    ∃ log w' r, w.serveAll codec budget calls = some (log, w') ∧
      log.all (·.answer.isOk) = all ∧ w'.finish codec budget = some r ∧ r.value.1 = .ok () ∧
      r.value.2.sink.accepted = accepted ∧
      joined ((log.flatMap (·.moves) ++ w'.drainMoves codec budget .finish).map (·.given)) =
        given := by
  obtain ⟨⟨log, w'⟩, served, h⟩ := Option.bind_eq_some_iff.mp h
  obtain ⟨r, closed, h⟩ := Option.bind_eq_some_iff.mp h
  simp only [Option.pure_def, Option.some.injEq, Prod.mk.injEq] at h
  obtain ⟨all_ok, ok, accepted, given⟩ := h
  refine ⟨log, w', r, served, all_ok, closed, ?_, accepted, given⟩
  cases hr : r.value.1 with
  | error f =>
    rw [hr] at ok
    cases ok
  | ok => rfl

end Sluice.CompressWriter
