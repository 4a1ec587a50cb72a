import Sluice.Proofs.Bounds
import Sluice.Proofs.Engine.Rejections

namespace Sluice

variable {σ τ : Type}

namespace Event

def isWarning (e : Event) : Bool := e.severity == .warn

def isStep : Event → Bool
  | step .. => true
  | _ => false

end Event

/-- A step with its checks one after the other: bounds that do not hold are warned of, and after
them a window that is not had would be an exit without a word. -/
def stepChecked (run : {size : Nat} → InWindow → OutWindow size → Answer σ size) (s : σ)
    (output input : Cursor) : Logged (Stepped σ) :=
  if input.isValid && output.isValid then
    match input.readable, output.writable with
    | some i, some ⟨_, o⟩ => do
      let x ← (run i o).settle i o
      return ⟨x.report, x.state, output.commit x.output⟩
    | _, _ => return ⟨.accessFailure, s, output⟩
  else do
    Logged.note (.accessFailure input output)
    return ⟨.accessFailure, s, output⟩

/-- The second exit is never taken: bounds that hold give a window. -/
theorem stepChecked_eq (run : {size : Nat} → InWindow → OutWindow size → Answer σ size) (s : σ)
    (output input : Cursor) : stepChecked run s output input = stepOver run s output input := by
  have readable := input.isSome_readable
  have writable := output.isSome_writable
  unfold stepChecked stepOver
  cases hi : input.readable with
  | none =>
    rw [hi] at readable
    rw [← readable]
    rfl
  | some i =>
    cases ho : output.writable with
    | none =>
      rw [ho] at writable
      rw [← writable, Bool.and_comm]
      rfl
    | some o =>
      rw [hi] at readable
      rw [ho] at writable
      rw [← readable, ← writable]
      rfl

/-- For every codec a step over two cursors either runs it once, over the same windows, and tells
of that, or warns of the cursors and does nothing. -/
theorem stepOver_cases (output input : Cursor) :
    (∃ (size : Nat) (i : InWindow) (o : OutWindow size), ∀ {σ : Type} run (s : σ),
      let a : Answer σ size := run i o
      ∃ progress, stepOver run s output input =
        ⟨⟨⟨.ofCode a.code, progress⟩, a.state, output.commit a.output⟩,
          [.step progress i.left o.room (.ofCode a.code)]⟩) ∨
      ∀ {σ : Type} run (s : σ), stepOver run s output input =
        ⟨⟨.accessFailure, s, output⟩, [.accessFailure input output]⟩ := by
  cases hi : input.readable with
  | none =>
    right
    intro σ run s
    rw [stepOver, hi]
    rfl
  | some i =>
    cases ho : output.writable with
    | none =>
      right
      intro σ run s
      rw [stepOver, hi, ho]
      rfl
    | some o =>
      left
      refine ⟨o.1, i, o.2, fun run s =>
        ⟨⟨(run i o.2).inPos - i.pos, (run i o.2).output.pos - o.2.pos⟩, ?_⟩⟩
      rw [stepOver, hi, ho]
      rfl

/-- No status that a codec answers is that of a region that is missing. -/
theorem Status.ofCode_ne_bufferAccessFailure (code : Word) :
    Status.ofCode code ≠ .bufferAccessFailure := by
  unfold Status.ofCode
  split <;> nofun

def isStale {β : Type} : Except Fault β → Bool
  | .error fault => fault == .staleHandle
  | .ok _ => false

def isBarred : Except Fault (Report × Cursor) → Bool
  | .error fault => fault == .staleHandle
  | .ok (report, _) => report.status == .bufferAccessFailure

namespace SessionTable

variable {α β : Type} {t : SessionTable α} {h : Handle}

theorem events_withSession_none (run : Entry α → Logged (β × Entry α)) (hg : t.get? h = none) :
    (t.withSession h run).events = [.stale h] := by
  simp [withSession, hg, stale]

theorem events_withSession_some (run : Entry α → Logged (β × Entry α)) {entry : Entry α}
    (hg : t.get? h = some entry) : (t.withSession h run).events = (run entry).events := by
  simp [withSession, hg]

theorem warnings_openSession (t : SessionTable α) (direction : Direction) (fresh : Option α) :
    (t.openSession direction fresh).events.countP Event.isWarning =
      (t.openSession direction fresh).value.1.isNone.toNat := by
  cases fresh <;> rfl

theorem warnings_withSession {run : Entry α → Logged (β × Entry α)}
    (quiet : ∀ entry, (run entry).events.countP Event.isWarning = 0) :
    (t.withSession h run).events.countP Event.isWarning =
      (isStale (t.withSession h run).value.1).toNat := by
  cases hg : t.get? h with
  | none =>
    rw [events_withSession_none run hg, withSession_none run hg]
    rfl
  | some entry =>
    rw [events_withSession_some run hg, withSession_some run hg]
    exact quiet entry

theorem warnings_drive (t : SessionTable α) (h : Handle) (output input : Cursor)
    (run : α → {size : Nat} → InWindow → OutWindow size → Answer α size) :
    let x := t.drive h fun s => stepOver (run s) s output input
    x.events.countP Event.isWarning = (isBarred x.value.1).toNat := by
  intro x
  unfold x drive
  cases hg : t.get? h with
  | none =>
    rw [events_withSession_none _ hg, withSession_none _ hg]
    rfl
  | some entry =>
    rw [events_withSession_some _ hg, withSession_some _ hg]
    rcases stepOver_cases output input with ⟨size, i, o, ran⟩ | barred
    · obtain ⟨progress, ran⟩ := ran (run entry.session) entry.session
      have other := Status.ofCode_ne_bufferAccessFailure (run entry.session i o).code
      simp only [ran, Logged.events_bind, Logged.value_bind, Logged.value_pure, Logged.events_pure,
        isBarred, beq_eq_false_iff_ne.mpr other]
      rfl
    · simp only [barred]
      rfl

theorem warnings_closeSession (t : SessionTable α) (direction : Direction) (h : Handle) :
    (t.closeSession direction h).events.countP Event.isWarning =
      (isStale (t.closeSession direction h).value.1).toNat := by
  unfold closeSession
  cases t.remove h <;> rfl

theorem steps_withSession {run : Entry α → Logged (β × Entry α)}
    (quiet : ∀ entry, (run entry).events.countP Event.isStep = 0) :
    (t.withSession h run).events.countP Event.isStep = 0 := by
  cases hg : t.get? h with
  | none =>
    rw [events_withSession_none run hg]
    rfl
  | some entry =>
    rw [events_withSession_some run hg]
    exact quiet entry

theorem steps_closeSession (t : SessionTable α) (direction : Direction) (h : Handle) :
    (t.closeSession direction h).events.countP Event.isStep = 0 := by
  unfold closeSession
  cases t.remove h <;> rfl

section Ran

variable {t t' : SessionTable (α × List Sight)}

/-- The codec of the session behind a handle ran: the record kept with it is a sight longer. -/
def Ran (t : SessionTable (α × List Sight)) (h : Handle) (t' : SessionTable (α × List Sight)) :
    Prop :=
  ∃ before after sight, t.get? h = some before ∧ t'.get? h = some after ∧
    after.session.2 = before.session.2 ++ [sight]

theorem not_ran_self : ¬t.Ran h t := by
  rintro ⟨before, after, sight, found, still, longer⟩
  rw [found] at still
  cases still
  simp at longer

theorem ran_withSession_iff (run : Entry (α × List Sight) → Logged (β × Entry (α × List Sight)))
    {entry : Entry (α × List Sight)} (hg : t.get? h = some entry) :
    t.Ran h (t.withSession h run).value.2 ↔
      ∃ sight, (run entry).value.2.session.2 = entry.session.2 ++ [sight] := by
  have left : (t.withSession h run).value.2.get? h = some (run entry).value.2 := by
    rw [withSession_some run hg]
    unfold SessionTable.set
    rw [hg]
    exact get?_setSlot_self (get?_eq_some_iff.mp hg)
  constructor
  · rintro ⟨before, after, sight, found, still, longer⟩
    rw [hg] at found
    rw [left] at still
    cases found
    cases still
    exact ⟨sight, longer⟩
  · rintro ⟨sight, longer⟩
    exact ⟨entry, _, sight, hg, left, longer⟩

theorem not_ran_withSession {run : Entry (α × List Sight) → Logged (β × Entry (α × List Sight))}
    (keeps : ∀ entry, (run entry).value.2.session.2 = entry.session.2) :
    ¬t.Ran h (t.withSession h run).value.2 := by
  cases hg : t.get? h with
  | none =>
    rw [withSession_none run hg]
    exact not_ran_self
  | some entry =>
    rw [ran_withSession_iff run hg, keeps entry]
    simp

theorem not_ran_closeSession (direction : Direction) :
    ¬t.Ran h (t.closeSession direction h).value.2 := by
  cases hg : t.get? h with
  | none =>
    rw [closeSession_none hg]
    exact not_ran_self
  | some entry =>
    have slot := get?_eq_some_iff.mp hg
    -- the slot is there still, but what it held is gone
    rintro ⟨_, after, _, _, still, _⟩
    simp only [closeSession, remove, hg, Option.map_some] at still
    have emptied := get?_eq_some_iff.mp still
    change (t.setSlot h.index ⟨h.generation + 1, none⟩).slots[h.index.toNat]? = _ at emptied
    rw [slots_setSlot, if_pos rfl, slot] at emptied
    simp at emptied

/-- Where the codec keeps a record, a step through a handle is told of exactly if the codec ran;
if it did not, what it answers has no part in the outcome. -/
theorem steps_drive (t : SessionTable (α × List Sight)) (h : Handle) (output input : Cursor)
    (run : α × List Sight → {size : Nat} → InWindow → OutWindow size →
      Answer (α × List Sight) size)
    (records : ∀ s {size : Nat} (i : InWindow) (o : OutWindow size),
      ∃ sight, (run s i o).state.2 = s.2 ++ [sight]) :
    let x := t.drive h fun s => stepOver (run s) s output input
    x.events.countP Event.isStep = 1 ∧ t.Ran h x.value.2 ∨
      x.events.countP Event.isStep = 0 ∧ ¬t.Ran h x.value.2 ∧
        ∀ run' : α × List Sight → {size : Nat} → InWindow → OutWindow size →
          Answer (α × List Sight) size,
          (t.drive h fun s => stepOver (run' s) s output input) = x := by
  intro x
  unfold x drive
  rcases stepOver_cases output input with ⟨size, i, o, ran⟩ | barred
  · cases hg : t.get? h with
    | none =>
      right
      rw [events_withSession_none _ hg, withSession_none _ hg]
      refine ⟨rfl, not_ran_self, fun run' => ?_⟩
      simp only [withSession, hg]
    | some entry =>
      left
      rw [events_withSession_some _ hg, ran_withSession_iff _ hg]
      obtain ⟨progress, ran⟩ := ran (run entry.session) entry.session
      simp only [ran]
      exact ⟨rfl, records entry.session i o⟩
  · right
    simp only [barred]
    exact ⟨steps_withSession fun _ => rfl, not_ran_withSession fun _ => rfl, fun _ => trivial⟩

end Ran

end SessionTable

namespace Engine

/-- The reply turns the call down: no context was had, no session was found, or a step found a
region missing. -/
def Reply.isRejection : Reply → Bool
  | compressor h => h.isNone
  | decompressor h => h.isNone
  | status answer => isStale answer
  | stepped answer => isBarred answer
  | progress answer => isStale answer
  | closed answer => isStale answer

def Call.isQuery : Call σ τ → Bool
  | compressorProgress _ | decompressorProgress _ => true
  | _ => false

variable {cc : Compressor σ} {dc : Decompressor τ} {e : Engine σ τ}

theorem events_serve (c : Call σ τ) :
    (e.serve cc dc c).events =
      match c with
      | .openCompressor fresh => (e.compressors.openSession .compress fresh).events
      | .openDecompressor fresh => (e.decompressors.openSession .decompress fresh).events
      | .setParameter h id value => (e.setParameter cc h id value).events
      | .compress h output input mode =>
        (e.compressors.drive h.handle (cc.compress · output input mode)).events
      | .compressBounds h output outStart outStop input inStart inStop mode =>
        (e.compressors.drive h.handle fun s =>
          cc.compress s ⟨some output, outStart, outStop⟩ ⟨some input, inStart, inStop⟩ mode).events
      | .decompress h output input =>
        (e.decompressors.drive h.handle (dc.decompress · output input)).events
      | .decompressBounds h output outStart outStop input inStart inStop =>
        (e.decompressors.drive h.handle fun s =>
          dc.decompress s ⟨some output, outStart, outStop⟩ ⟨some input, inStart, inStop⟩).events
      | .compressorProgress _ | .decompressorProgress _ => []
      | .closeCompressor h => (e.compressors.closeSession .compress h.handle).events
      | .closeDecompressor h => (e.decompressors.closeSession .decompress h.handle).events := by
  cases c with
  | setParameter h id value => rfl
  | compressorProgress h => rfl
  | decompressorProgress h => rfl
  | _ => exact List.append_nil _

/-- The journal of a refused parameter has a line, but that is no warning. -/
theorem warnings_setParameter (cc : Compressor σ) (e : Engine σ τ) (h : CompressorHandle)
    (id value : Int32) :
    (e.setParameter cc h id value).events.countP Event.isWarning =
      (isStale (e.setParameter cc h id value).value.1).toNat := by
  unfold setParameter
  rw [Logged.events_bind, Logged.value_bind, List.countP_append]
  refine SessionTable.warnings_withSession fun entry => ?_
  dsimp only
  split <;> rfl

theorem warnings_serve_of_not_query {c : Call σ τ} (other : c.isQuery = false) :
    (e.serve cc dc c).events.countP Event.isWarning =
      (e.serve cc dc c).value.1.isRejection.toNat := by
  rw [events_serve]
  cases c with
  | openCompressor fresh => exact SessionTable.warnings_openSession _ _ fresh
  | openDecompressor fresh => exact SessionTable.warnings_openSession _ _ fresh
  | setParameter h id value => exact warnings_setParameter cc e h id value
  | compress h output input mode =>
    exact SessionTable.warnings_drive e.compressors h.handle output input
      fun s _ i o => cc.step s i o mode
  | compressBounds h output outStart outStop input inStart inStop mode =>
    exact SessionTable.warnings_drive e.compressors h.handle ⟨some output, outStart, outStop⟩
      ⟨some input, inStart, inStop⟩ fun s _ i o => cc.step s i o mode
  | decompress h output input =>
    exact SessionTable.warnings_drive e.decompressors h.handle output input
      fun s _ i o => dc.step s i o
  | decompressBounds h output outStart outStop input inStart inStop =>
    exact SessionTable.warnings_drive e.decompressors h.handle ⟨some output, outStart, outStop⟩
      ⟨some input, inStart, inStop⟩ fun s _ i o => dc.step s i o
  | closeCompressor h => exact SessionTable.warnings_closeSession _ _ h.handle
  | closeDecompressor h => exact SessionTable.warnings_closeSession _ _ h.handle
  | compressorProgress h => cases other
  | decompressorProgress h => cases other

/-- A query leaves no line, whatever it is answered. -/
theorem warnings_serve (cc : Compressor σ) (dc : Decompressor τ) (e : Engine σ τ) (c : Call σ τ) :
    (e.serve cc dc c).events.countP Event.isWarning =
      ((e.serve cc dc c).value.1.isRejection && !c.isQuery).toNat := by
  cases query : c.isQuery with
  | false =>
    rw [warnings_serve_of_not_query query, Bool.not_false, Bool.and_true]
  | true =>
    rw [Bool.not_true, Bool.and_false]
    cases c <;> first | rfl | cases query

def silent (p : Call σ τ × Reply) : Bool := p.1.isQuery && p.2.isRejection

/-- Over a run the warnings and the queries that were turned down are all that was turned down. -/
theorem warnings_serveAll (e : Engine σ τ) (calls : List (Call σ τ)) :
    let x := e.serveAll cc dc calls
    x.events.countP Event.isWarning + (calls.zip x.value.1).countP silent =
      x.value.1.countP Reply.isRejection := by
  induction calls generalizing e with
  | nil => rfl
  | cons c cs ih =>
    have first := warnings_serve cc dc e c
    have rest := ih (e.next cc dc c)
    change ((e.serve cc dc c).events ++
        (((e.next cc dc c).serveAll cc dc cs).events ++ [])).countP _ +
      ((c, (e.serve cc dc c).value.1) ::
        cs.zip ((e.next cc dc c).serveAll cc dc cs).value.1).countP _ =
      ((e.serve cc dc c).value.1 :: ((e.next cc dc c).serveAll cc dc cs).value.1).countP _
    rw [List.append_nil, List.countP_append, List.countP_cons, List.countP_cons, first, ← rest]
    unfold silent
    cases (e.serve cc dc c).value.1.isRejection <;> cases c.isQuery <;> simp <;> omega

section Ran

variable {e : Engine (σ × List Sight) (τ × List Sight)} {c : Call (σ × List Sight) (τ × List Sight)}

def Ran (e : Engine (σ × List Sight) (τ × List Sight)) (c : Call (σ × List Sight) (τ × List Sight))
    (e' : Engine (σ × List Sight) (τ × List Sight)) : Prop :=
  (∃ h, c.compressor? = some h ∧ e.compressors.Ran h.handle e'.compressors) ∨
    ∃ h, c.decompressor? = some h ∧ e.decompressors.Ran h.handle e'.decompressors

theorem ran_compressor_iff {e' : Engine (σ × List Sight) (τ × List Sight)} {h : CompressorHandle}
    (named : c.compressor? = some h) :
    e.Ran c e' ↔ e.compressors.Ran h.handle e'.compressors := by
  cases c <;> cases named <;> simp [Ran, Call.compressor?, Call.decompressor?]

theorem ran_decompressor_iff {e' : Engine (σ × List Sight) (τ × List Sight)}
    {h : DecompressorHandle} (named : c.decompressor? = some h) :
    e.Ran c e' ↔ e.decompressors.Ran h.handle e'.decompressors := by
  cases c <;> cases named <;> simp [Ran, Call.compressor?, Call.decompressor?]

/-- A call is told of by a line exactly if it ran a codec, and a call without such a line is served
alike by all codecs that take parameters alike. -/
def Traced (cc : Compressor σ) (dc : Decompressor τ) (e : Engine (σ × List Sight) (τ × List Sight))
    (c : Call (σ × List Sight) (τ × List Sight)) : Prop :=
  (e.serve cc.watched dc.watched c).events.countP Event.isStep = 1 ∧
      e.Ran c (e.next cc.watched dc.watched c) ∨
    (e.serve cc.watched dc.watched c).events.countP Event.isStep = 0 ∧
      ¬e.Ran c (e.next cc.watched dc.watched c) ∧
      ∀ cc' dc', cc'.setParameter = cc.watched.setParameter →
        e.serve cc' dc' c = e.serve cc.watched dc.watched c

theorem traced_compress (cc : Compressor σ) (dc : Decompressor τ) (h : CompressorHandle)
    (output input : Cursor) (mode : EndMode) :
    Traced cc dc e (.compress h output input mode) := by
  unfold Traced
  rw [events_serve, ran_compressor_iff (h := h) rfl]
  rcases SessionTable.steps_drive e.compressors h.handle output input
    (fun s _ i o => cc.watched.step s i o mode) (fun s _ i o => ⟨_, rfl⟩) with
    ran | ⟨quiet, idle, alike⟩
  · exact .inl ran
  · refine .inr ⟨quiet, idle, fun cc' dc' _ => ?_⟩
    have same := alike fun s _ i o => cc'.step s i o mode
    simp only [serve, Engine.compress, Compressor.compress, same]

theorem traced_decompress (cc : Compressor σ) (dc : Decompressor τ) (h : DecompressorHandle)
    (output input : Cursor) :
    Traced cc dc e (.decompress h output input) := by
  unfold Traced
  rw [events_serve, ran_decompressor_iff (h := h) rfl]
  rcases SessionTable.steps_drive e.decompressors h.handle output input
    (fun s _ i o => dc.watched.step s i o) (fun s _ i o => ⟨_, rfl⟩) with
    ran | ⟨quiet, idle, alike⟩
  · exact .inl ran
  · refine .inr ⟨quiet, idle, fun cc' dc' _ => ?_⟩
    have same := alike fun s _ i o => dc'.step s i o
    simp only [serve, Engine.decompress, Decompressor.decompress, same]

/-- A parameter is set by the codec, but no step of it runs. -/
theorem traced_setParameter (h : CompressorHandle) (id value : Int32) :
    Traced cc dc e (.setParameter h id value) := by
  refine .inr ⟨?_, ?_, fun cc' dc' same => ?_⟩
  · change (e.setParameter cc.watched h id value).events.countP _ = 0
    unfold setParameter
    rw [Logged.events_bind, List.countP_append]
    refine SessionTable.steps_withSession fun entry => ?_
    dsimp only
    split <;> rfl
  · rw [ran_compressor_iff (h := h) rfl]
    refine SessionTable.not_ran_withSession fun entry => ?_
    dsimp only
    split <;> rfl
  · simp only [serve, setParameter, same]

theorem traced (cc : Compressor σ) (dc : Decompressor τ)
    (e : Engine (σ × List Sight) (τ × List Sight))
    (c : Call (σ × List Sight) (τ × List Sight)) : Traced cc dc e c := by
  cases c with
  | setParameter h id value => exact traced_setParameter h id value
  | compress h output input mode => exact traced_compress cc dc h output input mode
  | compressBounds h output outStart outStop input inStart inStop mode =>
    exact traced_compress cc dc h ⟨some output, outStart, outStop⟩ ⟨some input, inStart, inStop⟩
      mode
  | decompress h output input => exact traced_decompress cc dc h output input
  | decompressBounds h output outStart outStop input inStart inStop =>
    exact traced_decompress cc dc h ⟨some output, outStart, outStop⟩
      ⟨some input, inStart, inStop⟩
  | openCompressor fresh =>
    refine .inr ⟨by cases fresh <;> rfl, ?_, fun _ _ _ => rfl⟩
    simp [Ran, Call.compressor?, Call.decompressor?]
  | openDecompressor fresh =>
    refine .inr ⟨by cases fresh <;> rfl, ?_, fun _ _ _ => rfl⟩
    simp [Ran, Call.compressor?, Call.decompressor?]
  | compressorProgress h =>
    refine .inr ⟨rfl, ?_, fun _ _ _ => rfl⟩
    rw [ran_compressor_iff (h := h) rfl]
    exact SessionTable.not_ran_self
  | decompressorProgress h =>
    refine .inr ⟨rfl, ?_, fun _ _ _ => rfl⟩
    rw [ran_decompressor_iff (h := h) rfl]
    exact SessionTable.not_ran_self
  | closeCompressor h =>
    refine .inr ⟨?_, ?_, fun _ _ _ => rfl⟩
    · rw [events_serve]
      exact SessionTable.steps_closeSession _ _ _
    · rw [ran_compressor_iff (h := h) rfl]
      exact SessionTable.not_ran_closeSession _
  | closeDecompressor h =>
    refine .inr ⟨?_, ?_, fun _ _ _ => rfl⟩
    · rw [events_serve]
      exact SessionTable.steps_closeSession _ _ _
    · rw [ran_decompressor_iff (h := h) rfl]
      exact SessionTable.not_ran_closeSession _

end Ran

/-- In every state of an engine, and for every handle and cursor: a call is warned of once if it is
turned down, a query for progress apart, and else not; and it leaves one line of a step exactly if
it ran its codec. A step has no second exit that would go without a warning. So over a run there are
as many warnings as calls that are turned down, if and only if no query was. -/
theorem warnings_eq_rejections_iff (cc : Compressor σ) (dc : Decompressor τ) :
    (∀ (e : Engine σ τ) c, (e.serve cc dc c).events.countP Event.isWarning =
      ((e.serve cc dc c).value.1.isRejection && !c.isQuery).toNat) ∧
    (∀ (e : Engine (σ × List Sight) (τ × List Sight)) c, Traced cc dc e c) ∧
    (∀ (run : {size : Nat} → InWindow → OutWindow size → Answer σ size) s output input,
      stepChecked run s output input = stepOver run s output input) ∧
    ∀ (e : Engine σ τ) calls,
      let x := e.serveAll cc dc calls
      x.events.countP Event.isWarning = x.value.1.countP Reply.isRejection ↔
        ∀ p ∈ calls.zip x.value.1, p.1.isQuery = true → p.2.isRejection = false := by
  refine ⟨warnings_serve cc dc, traced cc dc, stepChecked_eq, fun e calls => ?_⟩
  intro x
  have all : x.events.countP Event.isWarning + (calls.zip x.value.1).countP silent =
      x.value.1.countP Reply.isRejection := warnings_serveAll e calls
  have none : (calls.zip x.value.1).countP silent = 0 ↔
      ∀ p ∈ calls.zip x.value.1, p.1.isQuery = true → p.2.isRejection = false := by
    simp only [List.countP_eq_zero, silent, Bool.and_eq_true, not_and, Bool.not_eq_true]
  rw [← none]
  omega

def turnedDown : List (Call Unit Unit) :=
  [.openDecompressor none, .openCompressor (some ()),
    .compress ⟨⟨0, 0⟩⟩ .unset (.full ⟨#[1]⟩) .more, .compressorProgress ⟨⟨0, 0⟩⟩,
    .closeCompressor ⟨⟨0, 0⟩⟩, .closeCompressor ⟨⟨0, 0⟩⟩]

theorem warnings_eq_rejections_turnedDown :
    let x := ({} : Engine Unit Unit).serveAll (Echo.compressor 8) (Echo.decompressor 8) turnedDown
    (∀ p ∈ turnedDown.zip x.value.1, p.1.isQuery = true → p.2.isRejection = false) ∧
      x.value.1.countP Reply.isRejection = 3 ∧ x.events.countP Event.isWarning = 3 := by
  intro x
  have answered : ∀ p ∈ turnedDown.zip x.value.1, p.1.isQuery = true → p.2.isRejection = false := by
    unfold x
    decide
  have rejections : x.value.1.countP Reply.isRejection = 3 := by rfl
  obtain ⟨-, -, -, runs⟩ := warnings_eq_rejections_iff (Echo.compressor 8) (Echo.decompressor 8)
  exact ⟨answered, rejections, ((runs {} turnedDown).mpr answered).trans rejections⟩

/-- The compressor is closed, and then asked for its progress: the answer is that its handle is
stale, and the journal has no word of it. -/
theorem stale_query_unwarned :
    let x := ({} : Engine Unit Unit).serveAll (Echo.compressor 8) (Echo.decompressor 8)
      [.openCompressor (some ()), .closeCompressor ⟨⟨0, 0⟩⟩, .compressorProgress ⟨⟨0, 0⟩⟩]
    x.value.1.getLast? = some (.progress (.error .staleHandle)) ∧
      x.value.1.countP Reply.isRejection = 1 ∧ x.events.countP Event.isWarning = 0 :=
  ⟨rfl, rfl, rfl⟩

end Engine

end Sluice
