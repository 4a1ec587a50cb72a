import Sluice.Proofs.Stream.Moves
import Sluice.Proofs.Turns

namespace Sluice.CompressWriter

open Logged

variable {σ : Type} {codec : Compressor σ} {budget : Nat} {w w' : CompressWriter σ}

def feedMoves (codec : Compressor σ) (budget : Nat) (w : CompressWriter σ) (buf : ByteArray) :
    List Move :=
  (visited (feedTurn codec) budget (⟨buf, 0⟩, w)).filterMap fun (input, w) =>
    if input.left = 0 then none else some (w.move codec input .more)

abbrev idle : InWindow := ⟨.empty, 0⟩

theorem idle_inside : idle.Inside := Nat.le_refl 0

/-- The codec steps of asking for what the codec holds. -/
def drainMoves (codec : Compressor σ) (budget : Nat) (w : CompressWriter σ) (mode : EndMode) :
    List Move :=
  (visited (drainTurn codec mode) budget w).map (·.move codec idle mode)

def writeAllMoves (codec : Compressor σ) (budget : Nat) (w : CompressWriter σ)
    (buf : ByteArray) : List Move :=
  if buf.isEmpty then []
  else (visited (writeAllTurn codec budget buf) budget w).flatMap (·.feedMoves codec budget buf)

/-- Codec steps that lead from one writer to another. Input is given to `more` steps only, and
between two steps the sink may be flushed. -/
inductive Trail (codec : Compressor σ) :
    CompressWriter σ → List Move → CompressWriter σ → Prop
  | refl (w : CompressWriter σ) : Trail codec w [] w
  | step {w w' : CompressWriter σ} {ms : List Move} (input : InWindow) (mode : EndMode)
    (inside : input.Inside) (idle : mode = .more ∨ input.left = 0)
    (rest : Trail codec (w.step codec input mode).value.writer ms w') :
    Trail codec w (w.move codec input mode :: ms) w'
  | flushSink {w w' : CompressWriter σ} {ms : List Move} (rest : Trail codec w.flushSink.2 ms w') :
    Trail codec w ms w'

theorem Trail.trans {w'' : CompressWriter σ} {ms ns : List Move} (first : Trail codec w ms w')
    (second : Trail codec w' ns w'') : Trail codec w (ms ++ ns) w'' := by
  induction first with
  | refl w => exact second
  | step input mode inside idle rest ih => exact .step input mode inside idle (ih second)
  | flushSink rest ih => exact .flushSink (ih second)

theorem Trail.flushed {ms : List Move} (t : Trail codec w ms w') :
    Trail codec w ms w'.flushSink.2 := by
  have := t.trans (.flushSink (.refl w'.flushSink.2))
  rwa [List.append_nil] at this

/-- The sink has accepted, step after step, what arrived there. -/
theorem Trail.accepted (obeys : codec.Obeys) {ms : List Move} (t : Trail codec w ms w') :
    w'.sink.accepted = w.sink.accepted ++ joined (ms.map (·.arrived)) := by
  induction t with
  | refl w => simp
  | step input mode inside idle rest ih =>
    rw [ih, (stepped obeys inside).accepted, ByteArray.append_assoc]
    rfl
  | flushSink rest ih =>
    rw [ih]
    exact congrArg (· ++ _) (Sink.accepted_flush _)

theorem Trail.accounted {ms : List Move} (t : Trail codec w ms w') : ∀ m ∈ ms, m.Accounted := by
  induction t with
  | refl w => nofun
  | step input mode inside idle rest ih =>
    intro m hm
    rcases List.mem_cons.mp hm with rfl | hm
    · exact accounted_move codec _ input mode
    · exact ih m hm
  | flushSink rest ih => exact ih

theorem feedTurn_idle {input : InWindow} (idle : input.left = 0) :
    (feedTurn codec (input, w)).value = .done (.ok (), w) := by
  simp only [feedTurn, if_pos idle]
  rfl

theorem feedTurn_busy {input : InWindow} (busy : input.left ≠ 0) :
    (feedTurn codec (input, w)).value =
      let e := (w.step codec input .more).value
      match e.result with
      | .error f => .done (.error f, e.writer)
      | .ok _ => .again (e.input, e.writer) := by
  simp only [feedTurn, if_neg busy, value_bind]
  cases (w.step codec input .more).value.result <;> rfl

theorem feedTurn_eq_again {input : InWindow} {next : InWindow × CompressWriter σ}
    (turn : (feedTurn codec (input, w)).value = .again next) :
    let e := (w.step codec input .more).value
    input.left ≠ 0 ∧ (∃ hint, e.result = .ok hint) ∧ next = (e.input, e.writer) := by
  by_cases idle : input.left = 0
  · rw [feedTurn_idle idle] at turn
    cases turn
  · rw [feedTurn_busy idle] at turn
    cases hr : (w.step codec input .more).value.result with
    | error f => simp [hr] at turn
    | ok hint =>
      simp only [hr, Turn.again.injEq] at turn
      exact ⟨idle, ⟨hint, hr⟩, turn.symm⟩

theorem feedTurn_eq_done {input : InWindow} {b : Except Failure Unit × CompressWriter σ}
    (last : (feedTurn codec (input, w)).value = .done b) :
    let e := (w.step codec input .more).value
    input.left = 0 ∧ b = (.ok (), w) ∨
      input.left ≠ 0 ∧ ∃ f, e.result = .error f ∧ b = (.error f, e.writer) := by
  by_cases idle : input.left = 0
  · rw [feedTurn_idle idle] at last
    cases last
    exact .inl ⟨idle, rfl⟩
  · rw [feedTurn_busy idle] at last
    cases hr : (w.step codec input .more).value.result with
    | error f =>
      simp only [hr, Turn.done.injEq] at last
      exact .inr ⟨idle, f, hr, last.symm⟩
    | ok hint => simp [hr] at last

theorem drainTurn_value {mode : EndMode} :
    (drainTurn codec mode w).value =
      let e := (w.step codec idle mode).value
      match e.result with
      | .error f => .done (.error f, e.writer)
      | .ok hint => if hint = 0 then .done (.ok (), e.writer) else .again e.writer := by
  simp only [drainTurn, value_bind]
  cases (w.step codec idle mode).value.result with
  | error f => rfl
  | ok hint =>
    by_cases h : hint = 0
    · simp [h]
    · simp [h]

theorem drainTurn_eq_again {mode : EndMode}
    (turn : (drainTurn codec mode w).value = .again w') :
    let e := (w.step codec idle mode).value
    (∃ hint, e.result = .ok hint ∧ hint ≠ 0) ∧ w' = e.writer := by
  rw [drainTurn_value] at turn
  cases hr : (w.step codec idle mode).value.result with
  | error f => simp [hr] at turn
  | ok hint =>
    simp only [hr] at turn
    split at turn
    · cases turn
    · rename_i pending
      cases turn
      exact ⟨⟨hint, hr, pending⟩, rfl⟩

theorem drainTurn_eq_done {mode : EndMode} {b : Except Failure Unit × CompressWriter σ}
    (last : (drainTurn codec mode w).value = .done b) :
    let e := (w.step codec idle mode).value
    e.result = .ok 0 ∧ b = (.ok (), e.writer) ∨
      ∃ f, e.result = .error f ∧ b = (.error f, e.writer) := by
  rw [drainTurn_value] at last
  cases hr : (w.step codec idle mode).value.result with
  | error f =>
    simp only [hr, Turn.done.injEq] at last
    exact .inr ⟨f, hr, last.symm⟩
  | ok hint =>
    simp only [hr] at last
    split at last
    · rename_i zero
      cases last
      exact .inl ⟨hr.trans (congrArg _ zero), rfl⟩
    · cases last

theorem move_mem_drainMoves (codec : Compressor σ) (budget : Nat) (w : CompressWriter σ)
    (mode : EndMode) : w.move codec idle mode ∈ w.drainMoves codec (budget + 1) mode := by
  unfold drainMoves visited
  split
  · exact List.mem_map_of_mem List.mem_cons_self
  · exact List.mem_map_of_mem List.mem_cons_self

theorem drainMoves_again {mode : EndMode} (turn : (drainTurn codec mode w).value = .again w') :
    w.drainMoves codec (budget + 1) mode =
      w.move codec idle mode :: w'.drainMoves codec budget mode := by
  simp only [drainMoves, visited, turn, List.map_cons]

theorem write_of_turns {buf : ByteArray} {ps : List (InWindow × CompressWriter σ)}
    {b : Except Failure Unit × CompressWriter σ} (turns : Turns (feedTurn codec) (⟨buf, 0⟩, w) ps b)
    (enough : ps.length ≤ budget) :
    ∃ fed, w.write codec budget buf = some fed ∧
      fed.value = (b.1.map fun () => buf.size, b.2) := by
  obtain ⟨loop, returned, value⟩ := turns.repeatUntil enough
  refine ⟨_, congrArg (Option.map _) returned, ?_⟩
  change (loop.value.1.map fun () => buf.size, loop.value.2) = _
  rw [value]

theorem move_mem_feedMoves (codec : Compressor σ) (budget : Nat) (w : CompressWriter σ)
    {buf : ByteArray} (busy : InWindow.left ⟨buf, 0⟩ ≠ 0) :
    w.move codec ⟨buf, 0⟩ .more ∈ w.feedMoves codec (budget + 1) buf := by
  unfold feedMoves visited
  split
  · simp [busy]
  · simp [busy]

theorem uninterrupted_move {input : InWindow} {mode : EndMode} {f : Failure}
    (hf : (w.move codec input mode).result = .error f) : f.kind ≠ .interrupted := by
  rcases Move.result_eq_error hf with unsent | other
  · exact (arrived_of_unsent unsent).1
  · simp [other]

/-- The last of the steps failed with `f`, and no other failed. -/
def FailsLast (ms : List Move) (f : Failure) : Prop :=
  ∃ before m, ms = before ++ [m] ∧ (∀ n ∈ before, n.Fine) ∧ m.result = .error f

theorem FailsLast.single {m : Move} {f : Failure} (failed : m.result = .error f) :
    FailsLast [m] f :=
  ⟨[], m, rfl, nofun, failed⟩

theorem FailsLast.cons {m : Move} {ms : List Move} {f : Failure} (fine : m.Fine)
    (later : FailsLast ms f) : FailsLast (m :: ms) f := by
  obtain ⟨before, last, split, others, failed⟩ := later
  refine ⟨m :: before, last, congrArg (m :: ·) split, ?_, failed⟩
  intro n hn
  rcases List.mem_cons.mp hn with rfl | hn
  · exact fine
  · exact others n hn

/-- Each of the steps is shown the input from where the one before it left off. -/
def Onward : InWindow → List Move → Prop
  | _, [] => True
  | input, m :: ms => m.input = input ∧ Onward ⟨input.src, input.pos + m.taken.size⟩ ms

/-- What feeding the unread bytes of a buffer amounts to. -/
structure Feeding (codec : Compressor σ) (w : CompressWriter σ) (input : InWindow)
    (ms : List Move) (result : Except Failure Unit) (w' : CompressWriter σ) : Prop where
  trail : Trail codec w ms w'
  mode : ∀ m ∈ ms, m.mode = .more
  onward : Onward input ms
  taken : ∃ rest, input.unread = joined (ms.map (·.taken)) ++ rest ∧
    (result = .ok () → rest = .empty)
  fine : result = .ok () → ∀ m ∈ ms, m.Fine
  failed : ∀ f, result = .error f → f.kind ≠ .interrupted ∧ FailsLast ms f

theorem Feeding.fail (obeys : codec.Obeys) {input : InWindow} (inside : input.Inside) {f : Failure}
    (hr : (w.step codec input .more).value.result = .error f) :
    Feeding codec w input [w.move codec input .more] (.error f)
      (w.step codec input .more).value.writer := by
  have step : w.Stepped codec input .more _ := stepped obeys inside
  refine ⟨.step input .more inside (.inl rfl) (.refl _), ?_, ⟨rfl, trivial⟩, ?_, nofun, ?_⟩
  · intro m hm
    obtain rfl := List.mem_singleton.mp hm
    rfl
  · refine ⟨(w.step codec input .more).value.input.unread, ?_, nofun⟩
    simp only [List.map_cons, List.map_nil, joined_cons, joined_nil, ByteArray.append_empty]
    exact step.unread
  · intro g hg
    cases hg
    have failed := step.result.symm.trans hr
    exact ⟨uninterrupted_move failed, .single failed⟩

theorem Feeding.step (obeys : codec.Obeys) {input : InWindow} (inside : input.Inside)
    {hint : Word} (hr : (w.step codec input .more).value.result = .ok hint) {ms : List Move}
    {result : Except Failure Unit}
    (later : Feeding codec (w.step codec input .more).value.writer
      (w.step codec input .more).value.input ms result w') :
    Feeding codec w input (w.move codec input .more :: ms) result w' := by
  have step : w.Stepped codec input .more _ := stepped obeys inside
  rw [step.result] at hr
  have fine := (Move.result_eq_ok hr).1
  refine ⟨.step input .more inside (.inl rfl) later.trail, ?_, ⟨rfl, ?_⟩, ?_, ?_, ?_⟩
  · intro m hm
    rcases List.mem_cons.mp hm with rfl | hm
    · rfl
    · exact later.mode m hm
  · exact step.moved ▸ later.onward
  · obtain ⟨rest, split, all⟩ := later.taken
    refine ⟨rest, ?_, all⟩
    rw [step.unread, List.map_cons, joined_cons, ByteArray.append_assoc, ← split]
  · intro ok m hm
    rcases List.mem_cons.mp hm with rfl | hm
    · exact fine
    · exact later.fine ok m hm
  · intro f hf
    exact ⟨(later.failed f hf).1, .cons fine (later.failed f hf).2⟩

theorem Feeding.all {buf : ByteArray} {ms : List Move}
    (h : Feeding codec w ⟨buf, 0⟩ ms (.ok ()) w') :
    (∀ m ∈ ms, m.Fine ∧ m.mode ≠ .finish) ∧ joined (ms.map (·.taken)) = buf := by
  constructor
  · intro m hm
    refine ⟨h.fine rfl m hm, ?_⟩
    rw [h.mode m hm]
    nofun
  · obtain ⟨rest, split, all⟩ := h.taken
    rw [← InWindow.unread_whole buf, split, all rfl, ByteArray.append_empty]

/-- The codec steps in the turns of feeding. -/
def fedMoves (codec : Compressor σ) (ps : List (InWindow × CompressWriter σ)) : List Move :=
  ps.filterMap fun (input, w) => if input.left = 0 then none else some (w.move codec input .more)

theorem fedMoves_idle {input : InWindow} (idle : input.left = 0)
    (ps : List (InWindow × CompressWriter σ)) :
    fedMoves codec ((input, w) :: ps) = fedMoves codec ps := by
  simp [fedMoves, idle]

theorem fedMoves_busy {input : InWindow} (busy : input.left ≠ 0)
    (ps : List (InWindow × CompressWriter σ)) :
    fedMoves codec ((input, w) :: ps) = w.move codec input .more :: fedMoves codec ps := by
  simp [fedMoves, busy]

theorem feeding_turns (obeys : codec.Obeys) {p : InWindow × CompressWriter σ}
    {ps : List (InWindow × CompressWriter σ)} {b : Except Failure Unit × CompressWriter σ}
    (t : Turns (feedTurn codec) p ps b) (inside : p.1.Inside) :
    Feeding codec p.2 p.1 (fedMoves codec ps) b.1 b.2 := by
  induction t with
  | @done p b last =>
    obtain ⟨input, w⟩ := p
    rcases feedTurn_eq_done last with ⟨idle, rfl⟩ | ⟨busy, f, failed, rfl⟩
    · have nothing : input.unread = .empty := InWindow.unread_eq_empty idle
      rw [fedMoves_idle idle]
      exact ⟨.refl w, nofun, trivial, ⟨.empty, nothing, fun _ => rfl⟩, nofun, nofun⟩
    · rw [fedMoves_busy busy]
      exact Feeding.fail obeys inside failed
  | @again p p' ps b turn rest ih =>
    obtain ⟨input, w⟩ := p
    obtain ⟨busy, ⟨hint, fine⟩, rfl⟩ := feedTurn_eq_again turn
    rw [fedMoves_busy busy]
    exact Feeding.step obeys inside fine (ih (stepped obeys inside).inside)

theorem uninterrupted_feed {p : InWindow × CompressWriter σ}
    {ps : List (InWindow × CompressWriter σ)} {b : Except Failure Unit × CompressWriter σ}
    (t : Turns (feedTurn codec) p ps b) : ∀ f, b.1 = .error f → f.kind ≠ .interrupted := by
  induction t with
  | @done p b last =>
    obtain ⟨input, w⟩ := p
    obtain ⟨result, -⟩ := step_leaves codec w input .more
    rcases feedTurn_eq_done last with ⟨-, rfl⟩ | ⟨-, f, failed, rfl⟩
    · nofun
    · intro g hg
      cases hg
      exact uninterrupted_move (result.symm.trans failed)
  | again turn rest ih => exact ih

/-- What asking for held bytes amounts to. If it succeeds, the last step, and no other, left
nothing pending. -/
structure Draining (codec : Compressor σ) (w : CompressWriter σ) (mode : EndMode)
    (ms : List Move) (result : Except Failure Unit) (w' : CompressWriter σ) : Prop where
  trail : Trail codec w ms w'
  mode : ∀ m ∈ ms, m.mode = mode ∧ m.input = idle ∧ m.taken = .empty
  fine : result = .ok () → ∀ m ∈ ms, m.Fine
  last : result = .ok () → ∃ before m, ms = before ++ [m] ∧ m.code = 0 ∧ ∀ m ∈ before, m.code ≠ 0
  failed : ∀ f, result = .error f → f.kind ≠ .interrupted ∧ FailsLast ms f

theorem taken_idle (obeys : codec.Obeys) (mode : EndMode) :
    (w.move codec idle mode).taken = .empty := by
  have step : w.Stepped codec idle mode _ := stepped obeys idle_inside
  have := congrArg ByteArray.size step.unread
  rw [ByteArray.size_append, InWindow.size_unread] at this
  change 0 = _ at this
  rw [← ByteArray.size_eq_zero_iff]
  omega

theorem Draining.fail (obeys : codec.Obeys) {mode : EndMode} {f : Failure}
    (hr : (w.step codec idle mode).value.result = .error f) :
    Draining codec w mode [w.move codec idle mode] (.error f)
      (w.step codec idle mode).value.writer := by
  have step : w.Stepped codec idle mode _ := stepped obeys idle_inside
  refine ⟨.step idle mode idle_inside (.inr rfl) (.refl _), ?_, nofun, nofun, ?_⟩
  · intro m hm
    obtain rfl := List.mem_singleton.mp hm
    exact ⟨rfl, rfl, taken_idle obeys mode⟩
  · intro g hg
    cases hg
    have failed := step.result.symm.trans hr
    exact ⟨uninterrupted_move failed, .single failed⟩

theorem Draining.done (obeys : codec.Obeys) {mode : EndMode}
    (hr : (w.step codec idle mode).value.result = .ok 0) :
    Draining codec w mode [w.move codec idle mode] (.ok ())
      (w.step codec idle mode).value.writer := by
  have step : w.Stepped codec idle mode _ := stepped obeys idle_inside
  rw [step.result] at hr
  obtain ⟨fine, zero⟩ := Move.result_eq_ok hr
  refine ⟨.step idle mode idle_inside (.inr rfl) (.refl _), ?_, ?_, ?_, nofun⟩
  · intro m hm
    obtain rfl := List.mem_singleton.mp hm
    exact ⟨rfl, rfl, taken_idle obeys mode⟩
  · intro _ m hm
    obtain rfl := List.mem_singleton.mp hm
    exact fine
  · intro _
    exact ⟨[], _, rfl, zero.symm, nofun⟩

theorem Draining.step (obeys : codec.Obeys) {mode : EndMode} {hint : Word}
    (hr : (w.step codec idle mode).value.result = .ok hint) (pending : hint ≠ 0)
    {ms : List Move} {result : Except Failure Unit}
    (later : Draining codec (w.step codec idle mode).value.writer mode ms result w') :
    Draining codec w mode (w.move codec idle mode :: ms) result w' := by
  have step : w.Stepped codec idle mode _ := stepped obeys idle_inside
  rw [step.result] at hr
  obtain ⟨fine, rfl⟩ := Move.result_eq_ok hr
  refine ⟨.step idle mode idle_inside (.inr rfl) later.trail, ?_, ?_, ?_, ?_⟩
  · intro m hm
    rcases List.mem_cons.mp hm with rfl | hm
    · exact ⟨rfl, rfl, taken_idle obeys mode⟩
    · exact later.mode m hm
  · intro ok m hm
    rcases List.mem_cons.mp hm with rfl | hm
    · exact fine
    · exact later.fine ok m hm
  · intro ok
    obtain ⟨before, m, split, zero, others⟩ := later.last ok
    refine ⟨w.move codec idle mode :: before, m, congrArg (_ :: ·) split, zero, ?_⟩
    intro n hn
    rcases List.mem_cons.mp hn with rfl | hn
    · exact pending
    · exact others n hn
  · intro f hf
    exact ⟨(later.failed f hf).1, .cons fine (later.failed f hf).2⟩

theorem Draining.joined_taken {mode : EndMode} {ms : List Move} {result : Except Failure Unit}
    (h : Draining codec w mode ms result w') : joined (ms.map (·.taken)) = .empty := by
  refine joined_of_empty fun b hb => ?_
  obtain ⟨m, hm, rfl⟩ := List.mem_map.mp hb
  exact (h.mode m hm).2.2

theorem draining_turns (obeys : codec.Obeys) {mode : EndMode} {ws : List (CompressWriter σ)}
    {b : Except Failure Unit × CompressWriter σ} (t : Turns (drainTurn codec mode) w ws b) :
    Draining codec w mode (ws.map (·.move codec idle mode)) b.1 b.2 := by
  induction t with
  | done last =>
    rcases drainTurn_eq_done last with ⟨zero, rfl⟩ | ⟨f, failed, rfl⟩
    · exact .done obeys zero
    · exact .fail obeys failed
  | again turn rest ih =>
    obtain ⟨⟨hint, fine, pending⟩, rfl⟩ := drainTurn_eq_again turn
    exact .step obeys fine pending ih

theorem feeding_write (obeys : codec.Obeys) {buf : ByteArray}
    {r : Logged (Except Failure Nat × CompressWriter σ)}
    (h : w.write codec budget buf = some r) :
    Feeding codec w ⟨buf, 0⟩ (w.feedMoves codec budget buf) (r.value.1.map fun _ => ())
      r.value.2 := by
  obtain ⟨fed, hf, rfl⟩ := Option.map_eq_some_iff.mp h
  have feeding := feeding_turns obeys (turns_of_repeatUntil hf) (Nat.zero_le _)
  obtain ⟨⟨result, w'⟩, events⟩ := fed
  cases result with
  | error f => exact feeding
  | ok => exact feeding

theorem uninterrupted_write {buf : ByteArray}
    {r : Logged (Except Failure Nat × CompressWriter σ)}
    (h : w.write codec budget buf = some r) :
    ∀ f, r.value.1 = .error f → f.kind ≠ .interrupted := by
  obtain ⟨fed, hf, rfl⟩ := Option.map_eq_some_iff.mp h
  have final := uninterrupted_feed (turns_of_repeatUntil hf)
  obtain ⟨⟨result, w'⟩, events⟩ := fed
  intro f failed
  cases result with
  | error g => exact final f (congrArg Except.error (Except.error.inj failed))
  | ok => cases failed

theorem writeAllTurn_value {buf : ByteArray} {r : Logged (Except Failure Nat × CompressWriter σ)}
    (h : w.write codec budget buf = some r)
    (uninterrupted : ∀ f, r.value.1 = .error f → f.kind ≠ .interrupted) :
    (writeAllTurn codec budget buf w).value =
      .done (some (r.value.1.map fun _ => (), r.value.2)) := by
  obtain ⟨⟨result, w'⟩, events⟩ := r
  simp only [writeAllTurn, h, Logged.map]
  cases result with
  | error f => simp [uninterrupted f rfl, Except.map]
  | ok n => rfl

/-- No write reports an interruption, so none is repeated. -/
theorem writeAll_of_write {buf : ByteArray} {r : Logged (Except Failure Nat × CompressWriter σ)}
    (some : buf.isEmpty = false) (h : w.write codec budget buf = .some r) :
    (∃ done, w.writeAll codec budget buf = .some done ∧
      done.value = (r.value.1.map fun _ => (), r.value.2)) ∧
      w.writeAllMoves codec budget buf = w.feedMoves codec budget buf := by
  have once := Turns.done (writeAllTurn_value h (uninterrupted_write h))
  have enough : [w].length ≤ budget := by
    cases budget with
    | zero => cases h
    | succ budget => exact Nat.le_add_left 1 budget
  constructor
  · obtain ⟨loop, looped, answer⟩ := once.repeatUntil enough
    refine ⟨⟨(r.value.1.map fun _ => (), r.value.2), loop.events⟩, ?_, rfl⟩
    unfold writeAll
    simp only [some, looped, Option.bind_eq_bind, Option.bind_some, answer]
    rfl
  · unfold writeAllMoves
    rw [once.visited enough, some]
    simp

theorem write_of_writeAll {buf : ByteArray} {r : Logged (Except Failure Unit × CompressWriter σ)}
    (some : buf.isEmpty = false) (h : w.writeAll codec budget buf = .some r) :
    ∃ fed, w.write codec budget buf = .some fed := by
  unfold writeAll at h
  rw [some] at h
  obtain ⟨loop, hl, h⟩ := Option.bind_eq_some_iff.mp h
  obtain ⟨answer, ha, -⟩ := Option.bind_eq_some_iff.mp h
  have turns := turns_of_repeatUntil hl
  rw [ha] at turns
  cases hw : w.write codec budget buf with
  | some fed => exact ⟨fed, rfl⟩
  | none =>
    have gone : (writeAllTurn codec budget buf w).value = .done none := by
      simp only [writeAllTurn, hw]
      rfl
    obtain ⟨-, none⟩ := turns.unique (.done gone)
    cases none

/-- Since no write reports an interruption, writing all of a buffer is at most one write. -/
theorem feeding_writeAll (obeys : codec.Obeys) {buf : ByteArray}
    {r : Logged (Except Failure Unit × CompressWriter σ)}
    (h : w.writeAll codec budget buf = some r) :
    Feeding codec w ⟨buf, 0⟩ (w.writeAllMoves codec budget buf) r.value.1 r.value.2 := by
  cases size : buf.isEmpty with
  | true =>
    unfold writeAll at h
    unfold writeAllMoves
    rw [size] at h
    cases h
    rw [if_pos size, isEmpty_iff.mp size]
    exact ⟨.refl w, nofun, trivial, ⟨.empty, rfl, fun _ => rfl⟩, nofun, nofun⟩
  | false =>
    obtain ⟨fed, returned⟩ := write_of_writeAll size h
    obtain ⟨⟨done, same, value⟩, moves⟩ := writeAll_of_write size returned
    obtain rfl := Option.some.inj (h.symm.trans same)
    rw [moves, value]
    exact feeding_write obeys returned

theorem draining_drain (obeys : codec.Obeys) {mode : EndMode}
    {r : Logged (Except Failure Unit × CompressWriter σ)}
    (h : w.drain codec budget mode = some r) :
    Draining codec w mode (w.drainMoves codec budget mode) r.value.1 r.value.2 :=
  draining_turns obeys (turns_of_repeatUntil h)

end Sluice.CompressWriter
