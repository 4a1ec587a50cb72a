import Sluice.Proofs.Codec.Queued
import Sluice.Proofs.Stream.WriterCalls

namespace Sluice

variable {σ ρ : Type} {codec : Compressor σ}

namespace Compressor.Queued

open CompressWriter (Call)

variable (q : codec.Queued ρ) {r : ρ}

/-- What a call has queued. One that writes no bytes takes no step. -/
def take (r : ρ) : Call → ByteArray × ρ
  | .write buf | .writeAll buf => if buf.isEmpty then (.empty, r) else q.absorb r buf .more
  | .flush => q.absorb r .empty .flush

def takeAll (r : ρ) : List Call → ByteArray × ρ
  | [] => (.empty, r)
  | c :: cs =>
    let (bytes, r) := q.take r c
    let (more, r) := takeAll r cs
    (bytes ++ more, r)

def fed (s : σ) (calls : List Call) : ByteArray := q.queue s ++ (q.takeAll (q.rest s) calls).1

def stream (s : σ) (calls : List Call) : ByteArray :=
  q.fed s calls ++ (q.absorb (q.takeAll (q.rest s) calls).2 .empty .finish).1

theorem takeAll_append (r : ρ) (before after : List Call) :
    q.takeAll r (before ++ after) =
      ((q.takeAll r before).1 ++ (q.takeAll (q.takeAll r before).2 after).1,
        (q.takeAll (q.takeAll r before).2 after).2) := by
  induction before generalizing r with
  | nil =>
    rw [List.nil_append, takeAll, ByteArray.empty_append]
  | cons c cs ih =>
    simp only [List.cons_append, takeAll, ih, ByteArray.append_assoc]

theorem size_fed_le (s : σ) (before after : List Call) :
    (q.fed s before).size ≤ (q.fed s (before ++ after)).size := by
  unfold fed
  rw [takeAll_append, ← ByteArray.append_assoc]
  exact size_le_append _ _

end Compressor.Queued

namespace CompressWriter

open Logged

variable {q : codec.Queued ρ} {budget : Nat} {w : CompressWriter σ} {input : InWindow}
  {mode : EndMode} {base total : ByteArray} {r : ρ}

def Call.count : Call → Option Nat
  | write buf => some buf.size
  | writeAll _ | flush => none

def callMoves (codec : Compressor σ) (budget : Nat) (w : CompressWriter σ) : Call → List Move
  | .write buf => w.feedMoves codec budget buf
  | .writeAll buf => w.writeAllMoves codec budget buf
  | .flush => w.drainMoves codec budget .flush

def runMoves (codec : Compressor σ) (budget : Nat) (w : CompressWriter σ) : List Call → List Move
  | [] => w.drainMoves codec budget .finish
  | c :: cs => w.callMoves codec budget c ++
    match w.serve codec budget c with
    | some (_, w') => w'.runMoves codec budget cs
    | none => []

/-- Behind `base`, the sink holds the front of the stream `total` and the queue holds the rest of
it. Besides the queue, `r` is known. -/
structure Holds (q : codec.Queued ρ) (base total : ByteArray) (r : ρ) (w : CompressWriter σ) :
    Prop where
  willing : w.sink.Willing
  space : 0 < w.staging.size
  rest : q.rest w.session = r
  split : ∃ sent, w.sink.accepted = base ++ sent ∧ sent ++ q.queue w.session = total

theorem Holds.size_le (h : Holds q base total r w) : (q.queue w.session).size ≤ total.size := by
  obtain ⟨sent, -, rfl⟩ := h.split
  rw [ByteArray.size_append]
  exact Nat.le_add_left _ _

theorem Holds.accepted (h : Holds q base total r w) (emptied : q.queue w.session = .empty) :
    w.sink.accepted = base ++ total := by
  obtain ⟨sent, accepted, rfl⟩ := h.split
  rw [emptied, ByteArray.append_empty, accepted]

theorem Holds.create {sink : Sink} (willing : sink.Willing) (s : σ) (chunk : Nat) :
    Holds q sink.accepted (q.queue s) (q.rest s) (create sink s chunk) := by
  refine ⟨willing, ?_, rfl, .empty, ?_, ?_⟩
  · change 0 < (Array.replicate (max chunk 1) (0 : UInt8)).size
    rw [Array.size_replicate]
    omega
  · exact ByteArray.append_empty.symm
  · exact ByteArray.empty_append

theorem Holds.flushSink (h : Holds q base total r w) :
    w.flushSink.1 = .ok () ∧ Holds q base total r w.flushSink.2 := by
  obtain ⟨ok, willing⟩ := h.willing.flush
  refine ⟨ok, willing, h.space, h.rest, ?_⟩
  obtain ⟨sent, accepted, split⟩ := h.split
  exact ⟨sent, (Sink.accepted_flush _).trans accepted, split⟩

/-- What a step leads to. It queues `bytes` and then moves from the queue to the sink what fits the
staging area. -/
structure Passed (q : codec.Queued ρ) (base total bytes : ByteArray) (r : ρ)
    (w : CompressWriter σ) (e : Emission σ) : Prop where
  result : ∃ hint, e.result = .ok hint ∧ hint.toNat = (q.queue e.writer.session).size
  left : e.input.left = 0
  holds : Holds q base (total ++ bytes) r e.writer
  shrinks : (q.queue e.writer.session).size =
    (q.queue w.session).size + bytes.size - w.staging.size

theorem Holds.step (h : Holds q base total r w) (inside : input.Inside) (mode : EndMode)
    (hint : (w.move codec input mode).code.isError = false) :
    let x := q.absorb r input.unread mode
    let e := (w.step codec input mode).value
    Passed q base total x.1 x.2 w e ∧ e.writer.totalIn = w.totalIn + input.unread.size := by
  intro x e
  have step : w.Stepped codec input mode e := stepped q.obeys inside
  have emits := q.emits w.session input (.whole w.staging) mode inside (OutWindow.whole_inside _)
  have keeps := q.keeps w.session input (.whole w.staging) mode inside (OutWindow.whole_inside _)
  rw [h.rest] at emits keeps
  obtain ⟨sent, accepted, split⟩ := h.split
  obtain ⟨ok, willing, took⟩ := h.willing.writeAll (w.move codec input mode).given
  generalize hall : q.queue w.session ++ (q.absorb r input.unread mode).1 = all at emits
  have fits : min all.size w.staging.size ≤ all.size := Nat.min_le_left _ _
  have given : (w.move codec input mode).given = all.extract 0 (min all.size w.staging.size) :=
    emits.given
  have queued : q.queue e.writer.session = all.extract (min all.size w.staging.size) all.size := by
    rw [step.session]
    exact emits.queued
  have taken : (w.move codec input mode).taken = input.unread := by
    change input.src.extract input.pos (w.answer codec input mode).inPos = input.unread
    exact congrArg (input.src.extract input.pos) emits.inPos
  constructor
  · refine ⟨⟨_, step.result.trans (Move.result_of_fine ⟨hint, ok⟩), ?_⟩, ?_, ?_, ?_⟩
    · rw [step.session]
      exact emits.code hint
    · have sizes := congrArg ByteArray.size step.unread
      rw [taken, ByteArray.size_append, InWindow.size_unread e.input] at sizes
      omega
    · refine ⟨?_, ?_, ?_, sent ++ (w.move codec input mode).given, ?_, ?_⟩
      · rw [step.sink]
        exact willing
      · rw [step.staging]
        exact h.space
      · rw [step.session]
        exact keeps
      · rw [step.sink, took, accepted, ByteArray.append_assoc]
      · -- What is moved to the sink and what stays queued are what was queued.
        rw [given, queued, ByteArray.append_assoc, extract_append_rest fits, ← hall,
          ← ByteArray.append_assoc, split]
    · have size := congrArg ByteArray.size hall
      rw [ByteArray.size_append] at size
      rw [queued, ByteArray.size_extract, size]
      omega
  · rw [step.totalIn, taken]

/-- A turn of asking for what is queued is the last if nothing stays queued. -/
theorem Passed.drainTurn {bytes : ByteArray}
    (h : Passed q base total bytes r w (w.step codec idle mode).value) :
    (drainTurn codec mode w).value =
      let last := (w.step codec idle mode).value.writer
      if (q.queue last.session).isEmpty then .done (.ok (), last) else .again last := by
  obtain ⟨hint, result, number⟩ := h.result
  have zero : hint = 0 ↔ (q.queue (w.step codec idle mode).value.writer.session).isEmpty := by
    rw [isEmpty_iff, ← ByteArray.size_eq_zero_iff, ← number, ← UInt64.toNat_inj]
    rfl
  rw [drainTurn_value]
  simp only [result, zero]

structure Drained (q : codec.Queued ρ) (base total : ByteArray) (r : ρ) (mode : EndMode)
    (budget : Nat) (w w' : CompressWriter σ) : Prop where
  turns : ∃ ws, Turns (drainTurn codec mode) w ws (.ok (), w') ∧ ws.length ≤ budget
  holds : Holds q base total r w'
  emptied : q.queue w'.session = .empty
  totalIn : w'.totalIn = w.totalIn

/-- A writer is drained if the turns after the first drain it. They are needed only if something
stays queued, and that is less than was queued. -/
theorem Holds.ask {bytes : ByteArray} {next : ρ} (h : Holds q base total r w)
    (absorbs : q.absorb r .empty mode = (bytes, next))
    (hints : ∀ m ∈ w.drainMoves codec (budget + 1) mode, m.code.isError = false)
    (later : ∀ w₁, w₁.session = (w.answer codec idle mode).state →
      Holds q base (total ++ bytes) next w₁ → q.queue w₁.session ≠ .empty →
      (q.queue w₁.session).size < (q.queue w.session).size + bytes.size →
      (∀ m ∈ w₁.drainMoves codec budget mode, m.code.isError = false) →
      ∃ w', Drained q base (total ++ bytes) next mode budget w₁ w') :
    ∃ w', Drained q base (total ++ bytes) next mode (budget + 1) w w' := by
  have step : w.Stepped codec idle mode _ := stepped q.obeys idle_inside
  obtain ⟨passed, totalIn⟩ :=
    h.step idle_inside mode (hints _ (move_mem_drainMoves codec budget w mode))
  have nothing : idle.unread = .empty := InWindow.unread_eq_empty rfl
  rw [nothing] at passed totalIn
  rw [absorbs] at passed
  dsimp only at passed
  have turn := passed.drainTurn
  by_cases none : (q.queue (w.step codec idle mode).value.writer.session).isEmpty
  · rw [if_pos none] at turn
    exact ⟨_, ⟨[w], .done turn, Nat.succ_le_succ (Nat.zero_le _)⟩, passed.holds,
      isEmpty_iff.mp none, totalIn⟩
  · rw [if_neg none] at turn
    rw [drainMoves_again turn] at hints
    have pending := mt isEmpty_iff.mpr none
    have some := mt ByteArray.size_eq_zero_iff.mp pending
    have shrinks := passed.shrinks
    have space := h.space
    obtain ⟨w', ⟨ws, turns, length⟩, holds, last, same⟩ :=
      later _ step.session passed.holds pending (by omega) fun m hm =>
        hints m (List.mem_cons_of_mem _ hm)
    exact ⟨w', ⟨w :: ws, .again turn turns, Nat.succ_le_succ length⟩, holds, last,
      same.trans totalIn⟩

theorem Holds.repeated (h : Holds q base total r w) (still : q.absorb r .empty mode = (.empty, r))
    (enough : (q.queue w.session).size < budget)
    (hints : ∀ m ∈ w.drainMoves codec budget mode, m.code.isError = false) :
    ∃ w', Drained q base total r mode budget w w' := by
  -- Every turn moves at least one byte, so the queue is empty before the budget is used up.
  induction budget generalizing w with
  | zero => exact absurd enough (Nat.not_lt_zero _)
  | succ budget ih =>
    have drained := h.ask still hints
    rw [ByteArray.append_empty, ByteArray.size_empty] at drained
    apply drained
    intro w₁ _ holds _ shorter hints
    exact ih holds (by omega) hints

theorem Holds.drained {bytes : ByteArray} {next : ρ} (h : Holds q base total r w)
    (asked : mode ≠ .more) (absorbs : q.absorb r .empty mode = (bytes, next))
    (enough : (total ++ bytes).size < budget)
    (hints : ∀ m ∈ w.drainMoves codec budget mode, m.code.isError = false) :
    ∃ w', Drained q base (total ++ bytes) next mode budget w w' := by
  cases budget with
  | zero => exact absurd enough (Nat.not_lt_zero _)
  | succ budget =>
    apply h.ask absorbs hints
    intro w₁ session holds pending shorter hints
    -- What stays queued was asked for already, so the later turns queue nothing.
    have still := q.again w.session idle (.whole w.staging) mode idle_inside
      (OutWindow.whole_inside _) asked rfl
    have same : (codec.step w.session idle (.whole w.staging) mode).state = w₁.session :=
      session.symm
    simp only [same, holds.rest] at still
    have size := h.size_le
    rw [ByteArray.size_append] at enough
    exact holds.repeated (still pending) (by omega) hints

theorem Holds.write (h : Holds q base total r w) (buf : ByteArray) (enough : 2 ≤ budget)
    (hints : ∀ m ∈ w.feedMoves codec budget buf, m.code.isError = false) :
    ∃ fed w', w.write codec budget buf = some fed ∧ fed.value = (.ok buf.size, w') ∧
      Holds q base (total ++ (q.take r (.write buf)).1) (q.take r (.write buf)).2 w' ∧
      w'.totalIn = w.totalIn + buf.size := by
  obtain ⟨budget, rfl⟩ := Nat.exists_eq_add_of_le' enough
  by_cases none : buf.isEmpty
  · have nothing := isEmpty_iff.mp none
    have first : (feedTurn codec (⟨buf, 0⟩, w)).value = .done (.ok (), w) := by
      rw [nothing]
      exact feedTurn_idle rfl
    obtain ⟨fed, returned, value⟩ := write_of_turns (.done first) (Nat.le_add_left 1 (budget + 1))
    refine ⟨fed, w, returned, value, ?_, ?_⟩
    · simp only [Compressor.Queued.take, none, if_true, ByteArray.append_empty]
      exact h
    · rw [nothing]
      rfl
  · have busy : InWindow.left ⟨buf, 0⟩ ≠ 0 := by
      intro left
      exact none (isEmpty_iff.mpr (ByteArray.size_eq_zero_iff.mp left))
    have unread := InWindow.unread_whole buf
    obtain ⟨passed, totalIn⟩ :=
      h.step (Nat.zero_le _) .more (hints _ (move_mem_feedMoves codec (budget + 1) w busy))
    rw [unread] at passed totalIn
    obtain ⟨code, result, -⟩ := passed.result
    have first : (feedTurn codec (⟨buf, 0⟩, w)).value = .again
        ((w.step codec ⟨buf, 0⟩ .more).value.input,
          (w.step codec ⟨buf, 0⟩ .more).value.writer) := by
      rw [feedTurn_busy busy]
      simp only [result]
    obtain ⟨fed, returned, value⟩ := write_of_turns
      (.again first (.done (feedTurn_idle passed.left))) (Nat.le_add_left 2 budget)
    refine ⟨fed, _, returned, value, ?_, totalIn⟩
    simp only [Compressor.Queued.take, none]
    exact passed.holds

theorem Holds.writeAll (h : Holds q base total r w) (buf : ByteArray) (enough : 2 ≤ budget)
    (hints : ∀ m ∈ w.writeAllMoves codec budget buf, m.code.isError = false) :
    ∃ done w', w.writeAll codec budget buf = some done ∧ done.value = (.ok (), w') ∧
      Holds q base (total ++ (q.take r (.writeAll buf)).1) (q.take r (.writeAll buf)).2 w' ∧
      w'.totalIn = w.totalIn + buf.size := by
  cases none : buf.isEmpty with
  | true =>
    unfold CompressWriter.writeAll
    rw [if_pos none]
    refine ⟨_, w, rfl, rfl, ?_, ?_⟩
    · simp only [Compressor.Queued.take, none, if_true, ByteArray.append_empty]
      exact h
    · rw [isEmpty_iff.mp none]
      rfl
  | false =>
    have inner : ∀ m ∈ w.feedMoves codec budget buf, m.code.isError = false := by
      intro m hm
      apply hints m
      obtain ⟨budget, rfl⟩ := Nat.exists_eq_add_of_le' (Nat.le_of_lt enough)
      unfold writeAllMoves
      rw [none]
      refine List.mem_flatMap.mpr ⟨w, ?_, hm⟩
      unfold visited
      split
      · exact List.mem_cons_self
      · exact List.mem_cons_self
    obtain ⟨fed, w', returned, value, holds, totalIn⟩ := h.write buf enough inner
    obtain ⟨⟨done, same, answer⟩, -⟩ := writeAll_of_write none returned
    rw [value] at answer
    exact ⟨done, w', same, answer, holds, totalIn⟩

/-- Asking for what is queued leaves the sink all of it, and flushed. -/
theorem Holds.settled {bytes : ByteArray} {next : ρ} (h : Holds q base total r w)
    (asked : mode ≠ .more) (absorbs : q.absorb r .empty mode = (bytes, next))
    (enough : (total ++ bytes).size < budget)
    (hints : ∀ m ∈ w.drainMoves codec budget mode, m.code.isError = false) :
    ∃ drained w', w.drain codec budget mode = some drained ∧
      CompressWriter.settled drained.value = (.ok (), w') ∧ Holds q base (total ++ bytes) next w' ∧
      w'.totalIn = w.totalIn ∧ q.queue w'.session = .empty := by
  obtain ⟨last, ⟨ws, turns, length⟩, holds, emptied, totalIn⟩ :=
    h.drained asked absorbs enough hints
  obtain ⟨drained, returned, value⟩ := turns.repeatUntil length
  obtain ⟨ok, flushed⟩ := holds.flushSink
  refine ⟨drained, last.flushSink.2, returned, ?_, flushed, totalIn, emptied⟩
  rw [value]
  exact Prod.ext ok rfl

/-- What calls leave of a writer. Each has succeeded, and the stream has grown by what they
queue. -/
structure Answered (q : codec.Queued ρ) (base total : ByteArray) (r : ρ) (w : CompressWriter σ)
    (calls : List Call) (log : List Served) (w' : CompressWriter σ) : Prop where
  answers : log.map (·.answer) = calls.map fun c => .ok c.count
  holds : Holds q base (total ++ (q.takeAll r calls).1) (q.takeAll r calls).2 w'
  totalIn : w'.totalIn = w.totalIn + (joined (calls.map (·.bytes))).size
  emptied : calls.getLast? = some .flush → q.queue w'.session = .empty

theorem Holds.serve (h : Holds q base total r w) (c : Call)
    (enough : (total ++ (q.take r c).1).size + 2 ≤ budget)
    (hints : ∀ m ∈ w.callMoves codec budget c, m.code.isError = false) :
    ∃ x w', w.serve codec budget c = some (x, w') ∧ x.answer = .ok c.count ∧
      Holds q base (total ++ (q.take r c).1) (q.take r c).2 w' ∧
      w'.totalIn = w.totalIn + c.bytes.size ∧ (c = .flush → q.queue w'.session = .empty) := by
  have two : 2 ≤ budget := Nat.le_trans (Nat.le_add_left _ _) enough
  cases c with
  | write buf =>
    obtain ⟨fed, w', returned, value, holds, totalIn⟩ := h.write buf two hints
    refine ⟨_, _, congrArg (Option.map _) returned, ?_⟩
    rw [value]
    exact ⟨rfl, holds, totalIn, nofun⟩
  | writeAll buf =>
    obtain ⟨done, w', returned, value, holds, totalIn⟩ := h.writeAll buf two hints
    refine ⟨_, _, congrArg (Option.map _) returned, ?_⟩
    rw [value]
    exact ⟨rfl, holds, totalIn, nofun⟩
  | flush =>
    have asked : EndMode.flush ≠ .more := nofun
    obtain ⟨drained, w', returned, value, holds, totalIn, emptied⟩ :=
      h.settled asked rfl (Nat.lt_of_succ_lt enough) hints
    obtain ⟨flushed, served, answer⟩ := flush_of_drain returned
    refine ⟨_, _, congrArg (Option.map _) served, ?_⟩
    rw [answer, value]
    exact ⟨rfl, holds, totalIn, fun _ => emptied⟩

theorem Holds.serveAll (h : Holds q base total r w) (calls later : List Call)
    (enough : (total ++ (q.takeAll r calls).1).size + 2 ≤ budget)
    (hints : ∀ m ∈ w.runMoves codec budget (calls ++ later), m.code.isError = false) :
    ∃ log w', w.serveAll codec budget calls = some (log, w') ∧
      Answered q base total r w calls log w' ∧
      ∀ m ∈ w'.runMoves codec budget later, m.code.isError = false := by
  induction calls generalizing w total r with
  | nil =>
    refine ⟨[], w, rfl, ⟨rfl, ?_, rfl, nofun⟩, hints⟩
    simp only [Compressor.Queued.takeAll, ByteArray.append_empty]
    exact h
  | cons c cs ih =>
    simp only [Compressor.Queued.takeAll, ← ByteArray.append_assoc] at enough
    have grows : (total ++ (q.take r c).1).size ≤
        (total ++ (q.take r c).1 ++ (q.takeAll (q.take r c).2 cs).1).size := size_le_append _ _
    simp only [List.cons_append, runMoves, List.mem_append] at hints
    obtain ⟨x, w₁, served, answer, holds, totalIn, emptied⟩ :=
      h.serve c (by omega) fun m hm => hints m (.inl hm)
    simp only [served] at hints
    obtain ⟨log, w', others, answered, left⟩ := ih holds enough fun m hm => hints m (.inr hm)
    refine ⟨x :: log, w', ?_, ⟨?_, ?_, ?_, ?_⟩, left⟩
    · simp only [CompressWriter.serveAll, served, Option.bind_eq_bind, Option.bind_some, others]
      rfl
    · rw [List.map_cons, List.map_cons, answer, answered.answers]
    · simp only [Compressor.Queued.takeAll, ← ByteArray.append_assoc]
      exact answered.holds
    · rw [answered.totalIn, totalIn, List.map_cons, joined_cons, ByteArray.size_append,
        Nat.add_assoc]
    · intro last
      cases cs with
      | nil =>
        cases others
        exact emptied (Option.some.inj last)
      | cons d ds => exact answered.emptied (List.getLast?_cons_cons.symm.trans last)

theorem Holds.finish (h : Holds q base total r w)
    (enough : (total ++ (q.absorb r .empty .finish).1).size < budget)
    (hints : ∀ m ∈ w.drainMoves codec budget .finish, m.code.isError = false) :
    ∃ x w', w.perform codec budget .finish = some (x, w') ∧ x.answer = .ok none ∧
      w'.totalIn = w.totalIn ∧
      w'.sink.accepted = base ++ (total ++ (q.absorb r .empty .finish).1) := by
  have asked : EndMode.finish ≠ .more := nofun
  obtain ⟨drained, w', returned, value, holds, totalIn, emptied⟩ :=
    h.settled asked rfl enough hints
  obtain ⟨closed, served, answer⟩ := finish_of_drain returned
  refine ⟨_, _, congrArg (Option.map _) served, ?_⟩
  rw [answer, value]
  exact ⟨rfl, totalIn, holds.accepted emptied⟩

def callAll (codec : Compressor σ) (budget : Nat) (w : CompressWriter σ) (calls : List Call) :
    Option (List (Except Failure (Option Nat)) × CompressWriter σ) :=
  (w.serveAll codec budget calls).map fun (log, w') => (log.map (·.answer), w')

/-- The answers of calls and of the closing after them, and what they leave. -/
def closeAll (codec : Compressor σ) (budget : Nat) (w : CompressWriter σ) (calls : List Call) :
    Option (List (Except Failure (Option Nat)) × CompressWriter σ) := do
  let (answers, w) ← w.callAll codec budget calls
  let (x, w) ← w.perform codec budget .finish
  return (answers ++ [x.answer], w)

section Create

variable {s : σ} {sink : Sink} {chunk : Nat} {calls : List Call}

theorem callAll_create (willing : sink.Willing) (later : List Call)
    (enough : (q.stream s (calls ++ later)).size + 2 ≤ budget)
    (hints : ∀ m ∈ (create sink s chunk).runMoves codec budget (calls ++ later),
      m.code.isError = false) :
    ∃ w, (create sink s chunk).callAll codec budget calls =
        some (calls.map fun c => .ok c.count, w) ∧
      w.totalIn = (joined (calls.map (·.bytes))).size ∧
      (calls.getLast? = some .flush → w.sink.accepted = sink.accepted ++ q.fed s calls) ∧
      Holds q sink.accepted (q.fed s calls) (q.takeAll (q.rest s) calls).2 w ∧
      ∀ m ∈ w.runMoves codec budget later, m.code.isError = false := by
  have fits : (q.fed s calls).size ≤ (q.stream s (calls ++ later)).size :=
    Nat.le_trans (q.size_fed_le s calls later) (size_le_append _ _)
  have room : (q.fed s calls).size + 2 ≤ budget := by omega
  obtain ⟨log, w, served, answered, left⟩ :=
    (Holds.create willing s chunk).serveAll calls later room hints
  refine ⟨w, ?_, ?_, ?_, answered.holds, left⟩
  · unfold callAll
    rw [served, ← answered.answers]
    rfl
  · exact answered.totalIn.trans (Nat.zero_add _)
  · intro last
    exact answered.holds.accepted (answered.emptied last)

theorem closeAll_create (willing : sink.Willing) (enough : (q.stream s calls).size + 2 ≤ budget)
    (hints : ∀ m ∈ (create sink s chunk).runMoves codec budget calls, m.code.isError = false) :
    ∃ w, (create sink s chunk).closeAll codec budget calls =
        some ((calls.map fun c => .ok c.count) ++ [.ok none], w) ∧
      w.totalIn = (joined (calls.map (·.bytes))).size ∧
      w.sink.accepted = sink.accepted ++ q.stream s calls := by
  rw [← List.append_nil calls] at enough hints
  obtain ⟨w, called, totalIn, -, holds, left⟩ := callAll_create willing [] enough hints
  rw [List.append_nil] at enough
  obtain ⟨x, w', closed, answer, same, accepted⟩ :=
    holds.finish (Nat.lt_of_succ_lt enough) left
  refine ⟨w', ?_, same.trans totalIn, accepted⟩
  simp only [closeAll, called, Option.bind_eq_bind, Option.bind_some, closed, answer]
  rfl

end Create

/-- Writers over sinks that never fail differ in nothing that their callers see, whatever the sizes
of their staging areas, as long as no step has as many bytes left in the queue as an error would
say. All calls succeed and count alike, and after every flush and after the closing the bytes in
each sink are those that the calls say. -/
theorem staging_invisible (q : codec.Queued ρ) (s : σ) (calls : List Call) (budget : Nat)
    (enough : (q.stream s calls).size + 2 ≤ budget) (sink₁ sink₂ : Sink)
    (willing₁ : sink₁.Willing) (willing₂ : sink₂.Willing) (chunk₁ chunk₂ : Nat)
    (hints₁ : ∀ m ∈ (create sink₁ s chunk₁).runMoves codec budget calls, m.code.isError = false)
    (hints₂ : ∀ m ∈ (create sink₂ s chunk₂).runMoves codec budget calls, m.code.isError = false) :
    (∀ before after, calls = before ++ after → ∃ answers w₁ w₂,
      (create sink₁ s chunk₁).callAll codec budget before = some (answers, w₁) ∧
      (create sink₂ s chunk₂).callAll codec budget before = some (answers, w₂) ∧
      w₁.totalIn = w₂.totalIn ∧
      (before.getLast? = some .flush →
        w₁.sink.accepted = sink₁.accepted ++ q.fed s before ∧
        w₂.sink.accepted = sink₂.accepted ++ q.fed s before)) ∧
    ∃ answers w₁ w₂,
      (create sink₁ s chunk₁).closeAll codec budget calls = some (answers, w₁) ∧
      (create sink₂ s chunk₂).closeAll codec budget calls = some (answers, w₂) ∧
      w₁.totalIn = w₂.totalIn ∧
      w₁.sink.accepted = sink₁.accepted ++ q.stream s calls ∧
      w₂.sink.accepted = sink₂.accepted ++ q.stream s calls := by
  constructor
  · rintro before after rfl
    obtain ⟨w₁, called₁, totalIn₁, flushed₁, -, -⟩ := callAll_create willing₁ after enough hints₁
    obtain ⟨w₂, called₂, totalIn₂, flushed₂, -, -⟩ := callAll_create willing₂ after enough hints₂
    refine ⟨_, w₁, w₂, called₁, called₂, totalIn₁.trans totalIn₂.symm, ?_⟩
    intro last
    exact ⟨flushed₁ last, flushed₂ last⟩
  · obtain ⟨w₁, closed₁, totalIn₁, accepted₁⟩ := closeAll_create willing₁ enough hints₁
    obtain ⟨w₂, closed₂, totalIn₂, accepted₂⟩ := closeAll_create willing₂ enough hints₂
    exact ⟨_, w₁, w₂, closed₁, closed₂, totalIn₁.trans totalIn₂.symm, accepted₁, accepted₂⟩

/-- Calls after which blocks of two bytes are queued, and a part of a block is held. -/
def blockwise : List Call :=
  [.write ⟨#[1, 2, 3]⟩, .flush, .write .empty, .writeAll ⟨#[4, 5]⟩, .write ⟨#[6, 7, 8]⟩]

/-- Byte by byte into a sink that is interrupted, and three bytes at once into one that is not. -/
theorem staging_invisible_bytewise :
    let codec := Blocks.queueingCompressor 2
    let fresh : ByteArray × Blocks.Packer := (.empty, {})
    let halting : Sink := { plan := [.accept 1, .fail ⟨.interrupted, "signal"⟩], steady := 2 }
    let swift : Sink := { steady := 100 }
    ∃ answers w₁ w₂,
      (create halting fresh 0).closeAll codec 20 blockwise = some (answers, w₁) ∧
      (create swift fresh 3).closeAll codec 20 blockwise = some (answers, w₂) ∧
      w₁.totalIn = w₂.totalIn ∧
      w₁.sink.accepted = ⟨#[2, 1, 2, 1, 3, 2, 4, 5, 2, 6, 7, 1, 8, 0]⟩ ∧
      w₂.sink.accepted = ⟨#[2, 1, 2, 1, 3, 2, 4, 5, 2, 6, 7, 1, 8, 0]⟩ := by
  intro codec fresh halting swift
  let q : codec.Queued Blocks.Packer := Blocks.queueingCompressor_queued (Nat.succ_pos 1)
  have willing : halting.Willing :=
    ⟨by decide, by simp [halting], by simp [halting], by simp [halting], nofun⟩
  have stream : q.stream fresh blockwise = ⟨#[2, 1, 2, 1, 3, 2, 4, 5, 2, 6, 7, 1, 8, 0]⟩ := by
    decide +kernel
  obtain ⟨-, answers, w₁, w₂, closed₁, closed₂, totalIn, accepted₁, accepted₂⟩ :=
    staging_invisible q fresh blockwise 20 (by rw [stream]; decide) halting swift willing
      ⟨by decide, nofun, nofun, nofun, nofun⟩ 0 3 (by decide +kernel) (by decide +kernel)
  rw [stream] at accepted₁ accepted₂
  exact ⟨answers, w₁, w₂, closed₁, closed₂, totalIn, accepted₁, accepted₂⟩

end CompressWriter

end Sluice
