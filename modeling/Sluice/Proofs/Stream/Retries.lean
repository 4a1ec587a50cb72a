import Mathlib.Data.List.Forall2
import Sluice.Proofs.Cursor
import Sluice.Proofs.Stream.Endings

namespace Sluice

namespace Source

abbrev Unfailing (s : Source) : Prop := s.FailsOnly fun _ => False

theorem unfailing_ofChunks (chunks : List ByteArray) : (ofChunks chunks).Unfailing := by
  refine ⟨fun f here => ?_, nofun⟩
  obtain ⟨chunk, -, other⟩ := List.mem_map.mp here
  cases other

/-- Failures laid over single fills. A fill without one meets what it would have met. -/
def lay : (schedule : List (Option Failure)) → List (Option Gap) → List (Option Gap)
  | [], ahead => ahead
  | some f :: schedule, ahead => some (.fail f) :: lay schedule ahead
  | none :: schedule, ahead => ahead.head?.join :: lay schedule ahead.tail

def failing (s : Source) (schedule : List (Option Failure)) : Source :=
  { s with ahead := lay schedule s.ahead }

variable {schedule : List (Option Failure)} {s s' : Source}

/-- `s'` is `s` with failures of the schedule still to come. -/
def Failing (schedule : List (Option Failure)) (s s' : Source) : Prop :=
  s'.queue = s.queue ∧ ∃ later, later <:+ schedule ∧ s'.ahead = lay later s.ahead

theorem failing_self (s : Source) (schedule : List (Option Failure)) :
    Failing schedule s (s.failing schedule) :=
  ⟨rfl, schedule, List.suffix_rfl, rfl⟩

theorem fill_eq (s : Source) :
    s.fill =
      let met := match s.ahead.head?.join with
        | some g => (g.answer, s.queue)
        | none => front s.queue
      (met.1, { s with queue := met.2, ahead := s.ahead.tail, fills := s.fills + 1 }) := by
  unfold fill
  rcases s.ahead.head? with _ | _ | g <;> rfl

/-- What a fill shows is decided by the queue and by what is laid over this fill. -/
theorem fill_congr (queue : s'.queue = s.queue)
    (head : s'.ahead.head?.join = s.ahead.head?.join) :
    s'.fill.1 = s.fill.1 ∧ s'.fill.2.queue = s.fill.2.queue := by
  rw [fill_eq s, fill_eq s', queue, head]
  exact ⟨rfl, rfl⟩

theorem ahead_fill (s : Source) : s.fill.2.ahead = s.ahead.tail := by
  rw [fill_eq]

/-- A fill fails as planned and leaves the source where it was, or does what it would have done. -/
theorem Failing.fill (h : Failing schedule s s') :
    (∃ f, some f ∈ schedule ∧ s'.fill.1 = .error f ∧ Failing schedule s s'.fill.2) ∨
      s'.fill.1 = s.fill.1 ∧ Failing schedule s.fill.2 s'.fill.2 := by
  obtain ⟨queue, later, part, ahead⟩ := h
  cases later with
  | nil =>
    obtain ⟨same, kept⟩ := fill_congr queue (by rw [ahead]; rfl)
    exact .inr ⟨same, kept, [], part, by rw [ahead_fill, ahead_fill, ahead]; rfl⟩
  | cons plan later =>
    have rest : later <:+ schedule := (List.suffix_cons plan later).trans part
    cases plan with
    | none =>
      obtain ⟨same, kept⟩ := fill_congr queue (by rw [ahead]; rfl)
      exact .inr ⟨same, kept, later, rest, by rw [ahead_fill, ahead_fill, ahead]; rfl⟩
    | some f =>
      have fails : s'.fill =
          (.error f, { s' with ahead := s'.ahead.tail, fills := s'.fills + 1 }) := by
        rw [fill_eq, ahead]
        rfl
      refine .inl ⟨f, part.subset List.mem_cons_self, by rw [fails], ?_⟩
      rw [fails]
      exact ⟨queue, later, rest, by rw [ahead]; rfl⟩

theorem Failing.consume (h : Failing schedule s s') (n : Nat) :
    Failing schedule (s.consume n) (s'.consume n) := by
  obtain ⟨queue, later, part, ahead⟩ := h
  unfold Source.consume
  rw [queue]
  split
  · split <;> exact ⟨rfl, later, part, ahead⟩
  · exact ⟨queue, later, part, ahead⟩

end Source

namespace Decompressor

variable {σ : Type} {codec : Decompressor σ} {buf buf' buf'' : ByteArray}

/-- The codec does not look at what its output holds. -/
def Blind (codec : Decompressor σ) : Prop :=
  ∀ {size : Nat} (s : σ) (input : InWindow) (o o' : OutWindow size), o.Inside → o'.pos = o.pos →
    let a := codec.step s input o
    let a' := codec.step s input o'
    a'.code = a.code ∧ a'.state = a.state ∧ a'.inPos = a.inPos ∧ a'.output.pos = a.output.pos ∧
      a'.given o' = a.given o

theorem blind_ofSlices {run : σ → ByteArray → (room : Nat) → Portion σ}
    (fits : ∀ s unread room, (run s unread room).Fits unread room) : (ofSlices run).Blind := by
  intro size s input o o' inside pos a a'
  have room : o'.room = o.room := congrArg (size - ·) pos
  have inside' : o'.Inside := Nat.le_trans (Nat.le_of_eq pos) inside
  have same : run s input.unread o'.room = run s input.unread o.room := by rw [room]
  have fit := fits s input.unread o.room
  have fit' : (run s input.unread o.room).Fits input.unread o'.room := room ▸ fit
  have after : a' = (run s input.unread o.room).over input o' :=
    congrArg (Portion.over · input o') same
  rw [after]
  refine ⟨rfl, rfl, rfl, ?_, ?_⟩
  · rw [fit'.pos_over inside', pos]
    exact (fit.pos_over inside).symm
  · rw [fit'.given_over inside']
    exact (fit.given_over inside).symm

/-- Buffers that the codec cannot tell from each other. -/
def Alike (codec : Decompressor σ) (buf buf' : ByteArray) : Prop :=
  buf' = buf ∨ codec.Blind ∧ buf'.size = buf.size

theorem Alike.size (h : codec.Alike buf buf') : buf'.size = buf.size := by
  rcases h with rfl | ⟨-, size⟩
  · rfl
  · exact size

theorem Alike.trans (h : codec.Alike buf buf') (h' : codec.Alike buf' buf'') :
    codec.Alike buf buf'' := by
  rcases h' with rfl | ⟨blind, size⟩
  · exact h
  · exact .inr ⟨blind, size.trans h.size⟩

end Decompressor

namespace DecompressReader

open Logged

variable {τ : Type} {codec : Decompressor τ} {r r' base : DecompressReader τ}
  {shown buf buf' : ByteArray} {schedule : List (Option Failure)}

theorem answer_alike (h : codec.Alike buf buf') (session : r'.session = r.session)
    (shown : ByteArray) :
    let a := r.answer codec shown buf
    let a' := r'.answer codec shown buf'
    a'.code = a.code ∧ a'.state = a.state ∧ a'.inPos = a.inPos ∧ a'.output.pos = a.output.pos ∧
      a'.given (.whole buf') = a.given (.whole buf) ∧
      codec.Alike a.output.dst a'.output.dst := by
  rcases h with rfl | ⟨blind, size⟩
  · unfold answer
    rw [session]
    exact ⟨rfl, rfl, rfl, rfl, rfl, .inl rfl⟩
  · -- the two windows have sizes that are equal, but not by definition
    have recast : ∀ n (h : buf'.size = n),
        let a := codec.step r.session ⟨shown, 0⟩ (⟨buf', h, 0⟩ : OutWindow n)
        let a' := r'.answer codec shown buf'
        a'.code = a.code ∧ a'.state = a.state ∧ a'.inPos = a.inPos ∧ a'.output.pos = a.output.pos ∧
          a'.given (.whole buf') = a.given ⟨buf', h, 0⟩ := by
      rintro n rfl
      unfold answer
      rw [session]
      exact ⟨rfl, rfl, rfl, rfl, rfl⟩
    obtain ⟨code, state, inPos, pos, given⟩ := recast buf.size size
    obtain ⟨code', state', inPos', pos', given'⟩ :=
      blind r.session ⟨shown, 0⟩ (.whole buf) ⟨buf', size, 0⟩ (OutWindow.whole_inside buf) rfl
    refine ⟨code.trans code', state.trans state', inPos.trans inPos', pos.trans pos',
      given.trans given', .inr ⟨blind, ?_⟩⟩
    rw [OutWindow.size_dst, OutWindow.size_dst, size]

/-- `r'` is `r`, whose source never fails, over a source with failures of the schedule to come. -/
structure Shadows (schedule : List (Option Failure)) (r r' : DecompressReader τ) : Prop where
  source : r.source.Failing schedule r'.source
  calm : r.source.Unfailing
  session : r'.session = r.session
  pending : r'.pending = r.pending
  totalIn : r'.totalIn = r.totalIn
  totalOut : r'.totalOut = r.totalOut

theorem shadows_failing (r : DecompressReader τ) (calm : r.source.Unfailing)
    (schedule : List (Option Failure)) :
    Shadows schedule r { r with source := r.source.failing schedule } :=
  ⟨Source.failing_self _ _, calm, rfl, rfl, rfl, rfl⟩

/-- Two turns that come to the same. -/
inductive Follows (codec : Decompressor τ) (schedule : List (Option Failure)) :
    Turn (DecompressReader τ × ByteArray) (Reply τ) →
      Turn (DecompressReader τ × ByteArray) (Reply τ) → Prop
  | again {r r' : DecompressReader τ} {buf buf' : ByteArray} (h : Shadows schedule r r')
    (alike : codec.Alike buf buf') : Follows codec schedule (.again (r, buf)) (.again (r', buf'))
  | done {r r' : DecompressReader τ} (answer : Except Failure ByteArray)
    (h : Shadows schedule r r') :
    Follows codec schedule (.done (answer, r)) (.done (answer, r'))

theorem Shadows.stepped (h : Shadows schedule r r') (alike : codec.Alike buf buf')
    (shown : ByteArray) :
    Shadows schedule (r.stepped codec shown buf) (r'.stepped codec shown buf') := by
  obtain ⟨code, state, inPos, pos, -, -⟩ := answer_alike alike h.session shown
  have source : (r.stepped codec shown buf).source =
      r.source.consume (r.answer codec shown buf).inPos := rfl
  have source' : (r'.stepped codec shown buf').source =
      r'.source.consume (r.answer codec shown buf).inPos := congrArg r'.source.consume inPos
  refine ⟨?_, ?_, state, ?_, ?_, ?_⟩
  · rw [source, source']
    exact h.source.consume _
  · exact h.calm.consume _
  · change (if (r'.answer codec shown buf').code.isError then r'.pending
      else (r'.answer codec shown buf').code) = _
    rw [code, h.pending]
    rfl
  · change r'.totalIn + (r'.answer codec shown buf').inPos = _
    rw [h.totalIn, inPos]
    rfl
  · change r'.totalOut + (r'.answer codec shown buf').output.pos = _
    rw [h.totalOut, pos]
    rfl

theorem decode_follows (h : Shadows schedule r r') (alike : codec.Alike buf buf')
    (shown : ByteArray) :
    Follows codec schedule (r.decode codec shown buf).value (r'.decode codec shown buf').value := by
  obtain ⟨code, state, inPos, pos, given, dst⟩ := answer_alike alike h.session shown
  have later := h.stepped alike shown
  cases hc : (r.answer codec shown buf).code.isError with
  | true =>
    have hc' : (r'.answer codec shown buf').code.isError = true := code ▸ hc
    have same : (r'.move codec shown buf').code = (r.move codec shown buf).code := code
    rw [decode_failed hc, decode_failed hc', same]
    exact .done _ later
  | false =>
    have hc' : (r'.answer codec shown buf').code.isError = false := code ▸ hc
    rw [stepped_of_fine hc, stepped_of_fine hc'] at later
    rw [decode_value hc, decode_value hc']
    dsimp only
    rw [pos, inPos, given]
    split
    · exact .done _ later
    · split
      · exact .done _ later
      · split
        · exact .done _ later
        · exact .again later dst

theorem turn_follows (h : Shadows schedule r r') (alike : codec.Alike buf buf') :
    (∃ f later, some f ∈ schedule ∧ r'.source.fill.1 = .error f ∧ Shadows schedule r later ∧
      (r'.turn codec buf').value = .done (.error f, later)) ∨
    (∃ shown, r.source.fill.1 = .ok shown ∧ r'.source.fill.1 = .ok shown) ∧
      Follows codec schedule (r.turn codec buf).value (r'.turn codec buf').value := by
  rcases h.source.fill with ⟨f, planned, fails, kept⟩ | ⟨same, later⟩
  · have fill' : r'.source.fill = (.error f, r'.source.fill.2) := Prod.ext fails rfl
    refine .inl ⟨f, _, planned, fails, ?_, congrArg Logged.value (turn_unfilled codec buf' fill').1⟩
    exact ⟨kept, h.calm, h.session, h.pending, h.totalIn, h.totalOut⟩
  · have filled : Shadows schedule { r with source := r.source.fill.2 }
        { r' with source := r'.source.fill.2 } :=
      ⟨later, (h.calm.fill rfl).1, h.session, h.pending, h.totalIn, h.totalOut⟩
    rcases r.fill_cases with
      ⟨f, source, fill⟩ | ⟨source, fill, closed⟩ | ⟨shown, source, fill, goes⟩
    · exact ((h.calm.fill fill).2 f rfl).elim
    · have fill' : r'.source.fill = (.ok .empty, r'.source.fill.2) :=
        Prod.ext (by rw [same, fill]) rfl
      have closed' : r'.pending = 0 := h.pending.trans closed
      rw [(turn_ended codec buf fill closed).1, (turn_ended codec buf' fill' closed').1]
      rw [fill] at filled
      exact .inr ⟨⟨.empty, by rw [fill], by rw [fill']⟩, .done _ filled⟩
    · have fill' : r'.source.fill = (.ok shown, r'.source.fill.2) :=
        Prod.ext (by rw [same, fill]) rfl
      have goes' : shown = .empty → r'.pending ≠ 0 := fun dry => h.pending ▸ goes dry
      rw [(turn_stepped codec buf fill goes).1, (turn_stepped codec buf' fill' goes').1]
      rw [fill] at filled
      exact .inr ⟨⟨shown, by rw [fill], by rw [fill']⟩, decode_follows filled alike shown⟩

def failsOver (p : DecompressReader τ × ByteArray) : Option ByteArray :=
  match p.1.source.fill.1 with
  | .error _ => some p.2
  | .ok _ => none

/-- The buffer as a read left it, if the source failed the last fill of the read. -/
def brokenOff (codec : Decompressor τ) (r : DecompressReader τ) (buf : ByteArray) :
    Option ByteArray :=
  if buf.isEmpty then none else (r.readStates codec buf).getLast?.bind failsOver

/-- A loop that is at `q` may have started from `p`. -/
structure Resumes (codec : Decompressor τ) (p q : DecompressReader τ × ByteArray) : Prop where
  size : q.2.size = p.2.size
  turns : ∀ {qs : List (DecompressReader τ × ByteArray)} {answer : Reply τ},
    Turns (attempt codec) q qs answer →
      ∃ ps, Turns (attempt codec) p ps answer ∧ ps.getLast? = qs.getLast?

theorem Resumes.refl (p : DecompressReader τ × ByteArray) : Resumes codec p p :=
  ⟨rfl, fun t => ⟨_, t, rfl⟩⟩

theorem Resumes.trans {p q o : DecompressReader τ × ByteArray} (h : Resumes codec p q)
    (h' : Resumes codec q o) : Resumes codec p o := by
  refine ⟨h'.size.trans h.size, fun t => ?_⟩
  obtain ⟨qs, middle, last⟩ := h'.turns t
  obtain ⟨ps, whole, last'⟩ := h.turns middle
  exact ⟨ps, whole, last'.trans last⟩

theorem getLast?_cons_turns {p q : DecompressReader τ × ByteArray}
    {qs : List (DecompressReader τ × ByteArray)} {answer : Reply τ}
    (t : Turns (attempt codec) q qs answer) : (p :: qs).getLast? = qs.getLast? := by
  cases t <;> exact List.getLast?_cons_cons

theorem Resumes.next {p q : DecompressReader τ × ByteArray}
    (again : (attempt codec p).value = .again q) : Resumes codec p q := by
  refine ⟨?_, fun t => ⟨_, .again again t, getLast?_cons_turns t⟩⟩
  have turn := round codec p.1 p.2
  rw [again] at turn
  generalize p.1.moveOf codec p.2 = m at turn
  cases turn with
  | stepped fill goes verdict =>
    cases verdict with
    | again fine silent shows moved => exact OutWindow.size_dst _

/-- What a read over the failing source comes to, beside the loop over the other that is at `p`:
it breaks off where that loop may go on, or answers as that loop does. -/
inductive Meets (codec : Decompressor τ) (schedule : List (Option Failure))
    (p : DecompressReader τ × ByteArray) : Option ByteArray → Reply τ → Prop
  | brokenOff {f : Failure} {q : DecompressReader τ × ByteArray} {r' : DecompressReader τ}
    {buf : ByteArray} (planned : some f ∈ schedule) (resumes : Resumes codec p q)
    (shadows : Shadows schedule q.1 r') (alike : codec.Alike q.2 buf) :
    Meets codec schedule p (some buf) (.error f, r')
  | through {qs : List (DecompressReader τ × ByteArray)} {answer : Except Failure ByteArray}
    {r r' : DecompressReader τ} (turns : Turns (attempt codec) p qs (answer, r))
    (calm : qs.getLast?.bind failsOver = none) (shadows : Shadows schedule r r') :
    Meets codec schedule p none (answer, r')

theorem Meets.resume {p q : DecompressReader τ × ByteArray} {broken : Option ByteArray}
    {answer : Reply τ} (h : Meets codec schedule q broken answer) (resumes : Resumes codec p q) :
    Meets codec schedule p broken answer := by
  cases h with
  | brokenOff planned later shadows alike =>
    exact .brokenOff planned (resumes.trans later) shadows alike
  | through turns calm shadows =>
    obtain ⟨ps, whole, last⟩ := resumes.turns turns
    exact .through whole (last ▸ calm) shadows

theorem turns_meet {p' : DecompressReader τ × ByteArray}
    {ps : List (DecompressReader τ × ByteArray)} {answer : Reply τ}
    (t : Turns (attempt codec) p' ps answer) {p : DecompressReader τ × ByteArray}
    (h : Shadows schedule p.1 p'.1) (alike : codec.Alike p.2 p'.2) :
    Meets codec schedule p (ps.getLast?.bind failsOver) answer := by
  induction t generalizing p with
  | @done p' answer done =>
    rw [List.getLast?_singleton, Option.bind_some]
    rcases turn_follows h alike with ⟨f, later, planned, fails, kept, turn⟩ | ⟨fills, follows⟩
    · rw [done] at turn
      cases turn
      have broken : failsOver p' = some p'.2 := by
        unfold failsOver
        rw [fails]
      rw [broken]
      exact .brokenOff planned (.refl p) kept alike
    · obtain ⟨shown, fill, fill'⟩ := fills
      have calm : failsOver p = none := by
        unfold failsOver
        rw [fill]
      have calm' : failsOver p' = none := by
        unfold failsOver
        rw [fill']
      rw [calm']
      unfold attempt at done
      rw [done] at follows
      generalize turn : (p.1.turn codec p.2).value = t at follows
      cases follows with
      | done answer later => exact .through (.done turn) calm later
  | @again p' q' ps answer again rest ih =>
    rw [getLast?_cons_turns rest]
    rcases turn_follows h alike with ⟨f, later, planned, fails, kept, turn⟩ | ⟨fills, follows⟩
    · rw [again] at turn
      cases turn
    · unfold attempt at again
      rw [again] at follows
      generalize turn : (p.1.turn codec p.2).value = t at follows
      cases follows with
      | again later alike' => exact (ih later alike').resume (.next turn)

/-- A read as its caller sees it, and what it left. -/
structure Outcome (τ : Type) where
  buf : ByteArray
  answer : Except Failure ByteArray
  /-- If the source failed, the buffer as the read left it. -/
  brokenOff : Option ByteArray
  after : DecompressReader τ

def outcome (codec : Decompressor τ) (r : DecompressReader τ) (buf : ByteArray) : Outcome τ :=
  let (answer, after) := (r.read codec buf).value
  ⟨buf, answer, r.brokenOff codec buf, after⟩

def outcomes (codec : Decompressor τ) (r : DecompressReader τ) : List ByteArray → List (Outcome τ)
  | [] => []
  | buf :: bufs => r.outcome codec buf :: (r.outcome codec buf).after.outcomes codec bufs

structure Outcome.Agrees (o o' : Outcome τ) : Prop where
  size : o'.buf.size = o.buf.size
  answer : o'.answer = o.answer
  unbroken : o'.brokenOff = none
  session : o'.after.session = o.after.session
  totalIn : o'.after.totalIn = o.after.totalIn
  totalOut : o'.after.totalOut = o.after.totalOut
  boundary : o'.after.atFrameBoundary = o.after.atFrameBoundary

theorem answers_of_agrees {log log' : List (Outcome τ)}
    (same : List.Forall₂ Outcome.Agrees log log') :
    log'.map (·.answer.toOption) = log.map (·.answer.toOption) := by
  induction same with
  | nil => rfl
  | cons agrees rest ih => rw [List.map_cons, List.map_cons, agrees.answer, ih]

/-- A read that the source failed is made again, with the buffer as it was left or with one of its
size that the codec cannot tell from it. -/
def Repeated (codec : Decompressor τ) (log : List (Outcome τ)) : Prop :=
  log.IsChain fun o o' => ∀ buf ∈ o.brokenOff, codec.Alike buf o'.buf

/-- The buffers of the reads that went through, as they were when first offered. -/
def asked : (first : Option ByteArray) → List (Outcome τ) → List ByteArray
  | _, [] => []
  | first, o :: log =>
    let buf := first.getD o.buf
    match o.brokenOff with
    | none => buf :: asked none log
    | some _ => asked (some buf) log

section

variable {o : Outcome τ} {log : List (Outcome τ)} {first : Option ByteArray} {left : ByteArray}

theorem asked_broken (h : o.brokenOff = some left) :
    asked first (o :: log) = asked (some (first.getD o.buf)) log := by
  simp only [asked, h]

theorem asked_through (h : o.brokenOff = none) :
    asked first (o :: log) = first.getD o.buf :: asked none log := by
  simp only [asked, h]

end

/-- The reader is about to read into `buf`, to finish a read into `first`. -/
def Awaits (codec : Decompressor τ) (schedule : List (Option Failure))
    (base : DecompressReader τ) (first : ByteArray) (r : DecompressReader τ) (buf : ByteArray) :
    Prop :=
  ∃ p, Resumes codec (base, first) p ∧ Shadows schedule p.1 r ∧ codec.Alike p.2 buf ∧
    (first = .empty → p.1 = base)

theorem Shadows.awaits (h : Shadows schedule base r) (buf : ByteArray) :
    Awaits codec schedule base buf r buf :=
  ⟨(base, buf), .refl _, h, .inl rfl, fun _ => rfl⟩

theorem Awaits.size {first : ByteArray} (h : Awaits codec schedule base first r buf) :
    buf.size = first.size := by
  obtain ⟨p, resumes, -, alike, -⟩ := h
  exact alike.size.trans resumes.size

theorem Shadows.agrees {o o' : Outcome τ} (h : Shadows schedule o'.after o.after)
    (size : o'.buf.size = o.buf.size) (answer : o'.answer = o.answer)
    (unbroken : o'.brokenOff = none) : o.Agrees o' :=
  ⟨size, answer, unbroken, h.session.symm, h.totalIn.symm, h.totalOut.symm,
    congrArg (· == 0) h.pending.symm⟩

/-- The read breaks off as planned, and may be made again; or it goes through as it does over the
source that never fails. -/
theorem Awaits.outcome {first : ByteArray} (h : Awaits codec schedule base first r buf) :
    let o := r.outcome codec buf
    let o' := base.outcome codec first
    (∃ f left, some f ∈ schedule ∧ o.answer = .error f ∧ o.brokenOff = some left ∧
      ∀ buf', codec.Alike left buf' → Awaits codec schedule base first o.after buf') ∨
    o.brokenOff = none ∧ o.Agrees o' ∧ Shadows schedule o'.after o.after := by
  intro o o'
  have size := h.size
  obtain ⟨p, resumes, shadows, alike, still⟩ := h
  by_cases room : buf = .empty
  · subst room
    obtain rfl : first = .empty := ByteArray.size_eq_zero_iff.mp size.symm
    rw [still rfl] at shadows
    exact .inr ⟨rfl, shadows.agrees rfl rfl rfl, shadows⟩
  · have space : first ≠ .empty := by
      rintro rfl
      exact room (ByteArray.size_eq_zero_iff.mp size)
    have broken : o.brokenOff = (r.readStates codec buf).getLast?.bind failsOver :=
      if_neg (mt isEmpty_iff.mp room)
    have broken' : o'.brokenOff = (base.readStates codec first).getLast?.bind failsOver :=
      if_neg (mt isEmpty_iff.mp space)
    have meets := turns_meet (turns_read codec r room) shadows alike
    rw [← broken] at meets
    generalize stop : o.brokenOff = left, value : (r.read codec buf).value = answer at meets
    have answered : o.answer = answer.1 := congrArg Prod.fst value
    have after : o.after = answer.2 := congrArg Prod.snd value
    cases meets with
    | @brokenOff f q r' left planned later shadows alike =>
      refine .inl ⟨f, left, planned, answered, rfl, fun buf' retry => ?_⟩
      rw [after]
      exact ⟨q, resumes.trans later, shadows, alike.trans retry, fun none => absurd none space⟩
    | @through qs answer b r' turns calm shadows =>
      obtain ⟨ps, whole, last⟩ := resumes.turns turns
      obtain ⟨rfl, value'⟩ := (turns_read codec base space).unique whole
      have unbroken : o'.brokenOff = none := by
        rw [broken', last, calm]
      have after' : o'.after = b := congrArg Prod.snd value'
      have same : o'.answer = o.answer := (congrArg Prod.fst value').trans answered.symm
      have shadows' : Shadows schedule o'.after o.after := by
        rw [after', after]
        exact shadows
      exact .inr ⟨rfl, shadows'.agrees size.symm same unbroken, shadows'⟩

theorem outcomes_follow (bufs : List ByteArray) (first : Option ByteArray)
    (start : ∀ buf ∈ bufs.head?, Awaits codec schedule base (first.getD buf) r buf)
    (repeated : Repeated codec (r.outcomes codec bufs)) :
    let log := r.outcomes codec bufs
    List.Forall₂ Outcome.Agrees (log.filter (·.brokenOff.isNone))
        (base.outcomes codec (asked first log)) ∧
      ∀ o ∈ log, o.brokenOff.isSome → ∃ f, some f ∈ schedule ∧ o.answer = .error f := by
  intro log
  induction bufs generalizing base r first with
  | nil => exact ⟨.nil, List.forall_mem_nil _⟩
  | cons buf bufs ih =>
    have later : Repeated codec ((r.outcome codec buf).after.outcomes codec bufs) :=
      List.IsChain.of_cons repeated
    have whole : log = r.outcome codec buf :: (r.outcome codec buf).after.outcomes codec bufs := rfl
    rw [whole]
    rcases (start buf rfl).outcome with ⟨f, left, planned, failed, broken, again⟩ |
      ⟨through, agrees, shadows⟩
    · -- the read is still to be finished, and the next one is to do so
      have next : ∀ buf' ∈ bufs.head?,
          Awaits codec schedule base (first.getD buf) (r.outcome codec buf).after buf' := by
        intro buf' here
        obtain ⟨rest, rfl⟩ := List.head?_eq_some_iff.mp here
        exact again buf' ((List.isChain_cons_cons.mp repeated).1 left broken)
      obtain ⟨same, failures⟩ := ih (some (first.getD buf)) next later
      rw [List.filter_cons_of_neg (by simp [broken]), asked_broken broken]
      exact ⟨same, List.forall_mem_cons.mpr ⟨fun _ => ⟨f, planned, failed⟩, failures⟩⟩
    · obtain ⟨same, failures⟩ := ih none (fun buf' _ => shadows.awaits buf') later
      rw [List.filter_cons_of_pos (by simp [through]), asked_through through]
      refine ⟨.cons agrees same, List.forall_mem_cons.mpr ⟨fun some => ?_, failures⟩⟩
      rw [through] at some
      cases some

/-- Failures of the source do not show in what is read. Over a source that never fails, lay any
failures over its fills, and make every read that meets one again, as often as it does: either with
the buffer as it was left, or, where the codec does not look at it, with any of its size. The
answers that are no such failure are those of the same reads over the source that never fails, and
after each of them codec, totals and the place in the frame are the same. -/
theorem failures_transparent (codec : Decompressor τ) (reader : DecompressReader τ)
    (calm : reader.source.Unfailing) (schedule : List (Option Failure)) (bufs : List ByteArray) :
    let log := outcomes codec { reader with source := reader.source.failing schedule } bufs
    Repeated codec log →
      List.Forall₂ Outcome.Agrees (log.filter (·.brokenOff.isNone))
          (reader.outcomes codec (asked none log)) ∧
        ∀ o ∈ log, o.brokenOff.isSome → ∃ f, some f ∈ schedule ∧ o.answer = .error f := by
  intro log repeated
  have shadows := shadows_failing reader calm schedule
  exact outcomes_follow bufs none (fun buf _ => shadows.awaits buf) repeated

def inTwo : DecompressReader Nat :=
  { source := { queue := [.chunk ⟨#[2]⟩, .chunk ⟨#[5, 6, 0]⟩] }, session := 0 }

theorem blocks_blind : Blocks.decompressor.Blind :=
  Decompressor.blind_ofSlices fun _ _ _ =>
    Blocks.unpack_fits (Nat.zero_le _) (Nat.zero_le _)

/-- A read that has consumed the length of a block is broken off and made again into a buffer that
holds something else. -/
theorem failures_transparent_inTwo :
    let late : Failure := ⟨.device "TimedOut", "late"⟩
    let log := outcomes Blocks.decompressor
      { inTwo with source := inTwo.source.failing [none, some late] }
      [⟨#[0, 0]⟩, ⟨#[9, 9]⟩, ⟨#[0, 0]⟩]
    inTwo.source.Unfailing ∧ Repeated Blocks.decompressor log ∧
      log.map (·.brokenOff) = [some ⟨#[0, 0]⟩, none, none] ∧
      log.map (·.answer.toOption) = [none, some ⟨#[5, 6]⟩, some .empty] ∧
      asked none log = [⟨#[0, 0]⟩, ⟨#[0, 0]⟩] ∧
      List.Forall₂ Outcome.Agrees (log.filter (·.brokenOff.isNone))
        (inTwo.outcomes Blocks.decompressor (asked none log)) := by
  intro late log
  have calm : inTwo.source.Unfailing := Source.unfailing_ofChunks [⟨#[2]⟩, ⟨#[5, 6, 0]⟩]
  have broken : log.map (·.brokenOff) = [some ⟨#[0, 0]⟩, none, none] := by decide +kernel
  have repeated : Repeated Blocks.decompressor log := by
    obtain ⟨first, others⟩ := List.cons_eq_cons.mp broken
    obtain ⟨second, -⟩ := List.cons_eq_cons.mp others
    refine .cons_cons (fun buf here => ?_) (.cons_cons (fun buf here => ?_) (.singleton _))
    · cases first.symm.trans here
      exact .inr ⟨blocks_blind, rfl⟩
    · cases second.symm.trans here
  exact ⟨calm, repeated, broken, by decide +kernel, by decide +kernel,
    (failures_transparent Blocks.decompressor inTwo calm [none, some late]
      [⟨#[0, 0]⟩, ⟨#[9, 9]⟩, ⟨#[0, 0]⟩] repeated).1⟩

/-- A codec that puts the first byte it is shown into its output, and gives it when it is shown the
second. In between it stands in the buffer only. -/
def parking : Decompressor Bool where
  step parked input output :=
    if input.left = 0 ∨ output.room = 0 then ⟨1, parked, input.pos, output⟩
    else if parked then ⟨0, false, input.pos + 1, { output with pos := output.pos + 1 }⟩
    else ⟨1, true, input.pos + 1, output.put 0 (input.unread.extract 0 1)⟩

theorem parking_obeys : parking.Obeys := by
  intro size parked input output inside space
  unfold parking
  dsimp only
  split
  · exact ⟨Nat.le_refl _, inside, Nat.le_refl _, space⟩
  · rename_i work
    have left : input.left = input.src.size - input.pos := rfl
    have room : output.room = size - output.pos := rfl
    split
    · exact ⟨Nat.le_add_right _ _, by dsimp only; omega, Nat.le_add_right _ _, by dsimp only; omega⟩
    · exact ⟨Nat.le_add_right _ _, by dsimp only; omega, Nat.le_refl _, space⟩

theorem parking_fillsOnly : parking.FillsOnly := by
  intro size parked input output
  unfold parking
  dsimp only
  split
  · exact .refl
  · split
    · exact .advance .refl 1
    · exact .put .refl 0 _

def parted : DecompressReader Bool :=
  { source := { queue := [.chunk ⟨#[7]⟩, .chunk ⟨#[1]⟩] }, session := false }

/-- A buffer of the same size is not enough: what the codec left in the first one is not in it. -/
theorem failures_not_transparent :
    let late : Failure := ⟨.device "TimedOut", "late"⟩
    let log := outcomes parking { parted with source := parted.source.failing [none, some late] }
      [⟨#[0]⟩, ⟨#[0]⟩]
    parking.Obeys ∧ parking.FillsOnly ∧ parted.source.Unfailing ∧
      log.map (·.buf.size) = [1, 1] ∧ log.map (·.brokenOff.isSome) = [true, false] ∧
      log.map (·.answer.toOption) = [none, some ⟨#[0]⟩] ∧
      (parted.outcomes parking (asked none log)).map (·.answer.toOption) = [some ⟨#[7]⟩] ∧
      ¬List.Forall₂ Outcome.Agrees (log.filter (·.brokenOff.isNone))
        (parted.outcomes parking (asked none log)) := by
  intro late log
  have calm : parted.source.Unfailing := Source.unfailing_ofChunks [⟨#[7]⟩, ⟨#[1]⟩]
  have clean : (parted.outcomes parking (asked none log)).map (·.answer.toOption) =
      [some ⟨#[7]⟩] := by decide +kernel
  have through : (log.filter (·.brokenOff.isNone)).map (·.answer.toOption) = [some ⟨#[0]⟩] := by
    decide +kernel
  refine ⟨parking_obeys, parking_fillsOnly, calm, by decide +kernel, by decide +kernel,
    by decide +kernel, clean, fun same => ?_⟩
  have answers := answers_of_agrees same
  rw [clean, through] at answers
  cases answers

end DecompressReader

end Sluice
