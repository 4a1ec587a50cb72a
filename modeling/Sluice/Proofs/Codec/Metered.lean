import Sluice.Proofs.Codec.Packing

namespace Sluice

variable {σ : Type}

namespace Compressor

/-- A step that does not fail moves something, where there is something to move and room for it.
If it leaves something pending that it was asked for, it has produced some of it. -/
structure Progresses (codec : Compressor σ) : Prop where
  more : ∀ {size : Nat} (s : σ) (input : InWindow) (output : OutWindow size),
    input.Inside → output.Inside → input.left ≠ 0 → output.room ≠ 0 →
      let a := codec.step s input output .more
      a.code.isError = false → (a.taken input).size ≠ 0 ∨ (a.given output).size ≠ 0
  asked : ∀ {size : Nat} (s : σ) (input : InWindow) (output : OutWindow size) (mode : EndMode),
    input.Inside → output.Inside → mode ≠ .more → input.left = 0 → output.room ≠ 0 →
      let a := codec.step s input output mode
      a.code.isError = false → a.code ≠ 0 → (a.given output).size ≠ 0

/-- Runs of steps from a fresh session: how many bytes were consumed and how many produced, how
many calls were begun that ask for what is held, and the mode of such a call while it goes on. It
ends with a step that fails or leaves nothing pending, and any call may break off before. -/
inductive Metered (codec : Compressor σ) (fresh : σ) :
    (consumed produced asked : Nat) → Option EndMode → σ → Prop
  | fresh : Metered codec fresh 0 0 0 none fresh
  | more {consumed produced asked : Nat} {call : Option EndMode} {s : σ} {size : Nat}
    (run : Metered codec fresh consumed produced asked call s)
    (input : InWindow) (output : OutWindow size) (inside : input.Inside) (room : output.Inside)
    (busy : input.left ≠ 0) :
    Metered codec fresh
      (consumed + ((codec.step s input output .more).taken input).size)
      (produced + ((codec.step s input output .more).given output).size) asked none
      (codec.step s input output .more).state
  | begin {consumed produced asked : Nat} {call : Option EndMode} {s : σ}
    (run : Metered codec fresh consumed produced asked call s) (mode : EndMode)
    (asks : mode ≠ .more) : Metered codec fresh consumed produced (asked + 1) (some mode) s
  | ask {consumed produced asked : Nat} {mode : EndMode} {s : σ} {size : Nat}
    (run : Metered codec fresh consumed produced asked (some mode) s)
    (input : InWindow) (output : OutWindow size) (inside : input.Inside) (room : output.Inside)
    (idle : input.left = 0) :
    Metered codec fresh consumed
      (produced + ((codec.step s input output mode).given output).size) asked
      (if (codec.step s input output mode).code.isError ∨
        (codec.step s input output mode).code = 0 then none else some mode)
      (codec.step s input output mode).state

/-- No run produces more than the bound allows for what it consumed and was asked for. -/
def ProducesAtMost (codec : Compressor σ) (fresh : σ) (bound : (consumed asked : Nat) → Nat) :
    Prop :=
  ∀ {consumed produced asked : Nat} {call : Option EndMode} {s : σ},
    codec.Metered fresh consumed produced asked call s → produced ≤ bound consumed asked

theorem progresses_ofSlices {setParameter : σ → (id value : Int32) → Word × σ}
    {run : σ → ByteArray → (room : Nat) → EndMode → Portion σ}
    (fits : ∀ s unread room mode, (run s unread room mode).Fits unread room)
    (more : ∀ s unread room, unread.size ≠ 0 → room ≠ 0 →
      let p := run s unread room .more
      p.code.isError = false → p.taken ≠ 0 ∨ p.given.size ≠ 0)
    (asked : ∀ s room mode, mode ≠ .more → room ≠ 0 →
      let p := run s .empty room mode
      p.code.isError = false → p.code ≠ 0 → p.given.size ≠ 0) :
    (ofSlices setParameter run).Progresses where
  more := by
    intro size s input output inside room busy space a fine
    have fit := fits s input.unread output.room .more
    have taken : a.taken input = _ := Portion.taken_over _ input output
    have given : a.given output = _ := fit.given_over room
    have le := fit.taken_le
    rw [taken, given, ByteArray.size_extract]
    rcases more s input.unread output.room (input.size_unread ▸ busy) space fine with took | gave
    · left
      omega
    · exact .inr gave
  asked := by
    intro size s input output mode inside room asks idle space a fine pending
    have given : a.given output = _ := (fits s input.unread output.room mode).given_over room
    have step : a = (run s input.unread output.room mode).over input output := rfl
    rw [step, Portion.code_over] at fine pending
    rw [given]
    rw [InWindow.unread_eq_empty idle] at fine pending ⊢
    exact asked s output.room mode asks space fine pending

end Compressor

namespace Blocks

namespace Packer

variable {n : Nat}

/-- What the content that is held and the blocks that are queued can still amount to. A block is at
most twice as long as its content. -/
def weight (p : Packer) : Nat := p.queue.size + 2 * p.held.size

def endings (p : Packer) : Nat := if p.ended then 1 else 0

theorem size_framed (block : ByteArray) : (framed block).size = block.size + 1 := by
  unfold framed
  rw [ByteArray.size_append, ByteArray.size_push, ByteArray.size_empty]
  omega

theorem weight_queueFull (n : Nat) (p : Packer) :
    (p.queueFull n).weight ≤ p.weight ∧ (p.queueFull n).ended = p.ended := by
  fun_induction queueFull n p with
  | case1 p full ih =>
    refine ⟨Nat.le_trans ih.1 ?_, ih.2⟩
    simp only [weight, ByteArray.size_append, size_framed, ByteArray.size_extract]
    omega
  | case2 p short => exact ⟨Nat.le_refl _, rfl⟩

theorem weight_queueRest (p : Packer) :
    p.queueRest.weight ≤ p.weight ∧ p.queueRest.ended = p.ended := by
  unfold queueRest
  split
  · exact ⟨Nat.le_refl _, rfl⟩
  · rename_i some
    have size := mt ByteArray.size_eq_zero_iff.mp (mt isEmpty_iff.mpr some)
    refine ⟨?_, rfl⟩
    simp only [weight, ByteArray.size_append, size_framed, ByteArray.size_empty]
    omega

theorem weight_queueEnd (p : Packer) :
    p.queueEnd.weight + p.endings = p.weight + p.queueEnd.endings := by
  unfold queueEnd
  split
  · rfl
  · rename_i running
    simp only [weight, endings, ByteArray.size_push, running]
    simp
    omega

/-- Taking in input and doing what the mode asks for costs two bytes for each one taken in, and one
for the end of the frame. -/
theorem weight_absorb (n : Nat) (p : Packer) (input : ByteArray) (mode : EndMode) :
    (p.absorb n input mode).weight + p.endings ≤
        p.weight + 2 * input.size + (p.absorb n input mode).endings ∧
      (mode ≠ .finish → (p.absorb n input mode).ended = p.ended) := by
  have fed : ({ p with held := p.held ++ input } : Packer).weight =
      p.weight + 2 * input.size := by
    simp only [weight, ByteArray.size_append]
    omega
  have full := weight_queueFull n { p with held := p.held ++ input }
  have rest := weight_queueRest (queueFull n { p with held := p.held ++ input })
  have last := weight_queueEnd (queueFull n { p with held := p.held ++ input }).queueRest
  cases mode with
  | more =>
    refine ⟨?_, fun _ => full.2⟩
    simp only [absorb, endings, full.2]
    omega
  | flush =>
    have same := rest.2.trans full.2
    refine ⟨?_, fun _ => same⟩
    simp only [absorb, endings, same]
    omega
  | finish =>
    have same : (queueFull n { p with held := p.held ++ input }).queueRest.endings = p.endings := by
      unfold endings
      rw [rest.2, full.2]
    refine ⟨?_, fun goes => absurd rfl goes⟩
    simp only [absorb]
    omega

theorem absorb_finish_ended (n : Nat) (p : Packer) (input : ByteArray) :
    (p.absorb n input .finish).ended = true := by
  change (queueEnd _).ended = true
  unfold queueEnd
  split
  · assumption
  · rfl

theorem weight_run (n : Nat) (p : Packer) (unread : ByteArray) (room : Nat) (mode : EndMode) :
    (p.run n unread room mode).given.size + (p.run n unread room mode).state.weight =
      (p.absorb n unread mode).weight := by
  have whole := congrArg ByteArray.size (given_emit (p.absorb n unread mode) unread.size room)
  rw [ByteArray.size_append] at whole
  unfold run
  simp only [weight]
  rw [← whole, ← Nat.add_assoc]
  rfl

theorem ended_run (n : Nat) (p : Packer) (unread : ByteArray) (room : Nat) (mode : EndMode)
    (pending : (p.run n unread room mode).code ≠ 0) :
    (p.run n unread room mode).state.ended = (p.absorb n unread mode).ended := by
  have some : (p.run n unread room mode).state.queue.isEmpty = false := by
    apply Bool.eq_false_iff.mpr
    intro none
    apply pending
    have code : (p.run n unread room mode).code =
        .ofNat (p.run n unread room mode).state.queue.size := rfl
    rw [code, isEmpty_iff.mp none]
    rfl
  change ((p.absorb n unread mode).ended && !(p.run n unread room mode).state.queue.isEmpty) = _
  rw [some, Bool.not_false, Bool.and_true]

end Packer

theorem compressor_progresses (n : Nat) : (compressor n).Progresses := by
  apply Compressor.progresses_ofSlices (run_fits n)
  · intro s unread room busy space p fine
    exact .inl busy
  · intro s room mode asks space p fine pending
    -- a hint that is not 0 says that something stays queued, so the room is full
    have left : (s.absorb n .empty mode).queue.size -
        min (s.absorb n .empty mode).queue.size room ≠ 0 := by
      intro none
      apply pending
      simp only [p, Packer.run, Packer.emit, ByteArray.size_extract, Nat.min_self, none]
      rfl
    simp only [p, Packer.run, Packer.emit, ByteArray.size_extract]
    omega

/-- The end of the frame that a call under way has still to queue. -/
def owed (call : Option EndMode) (p : Packer) : Nat :=
  if call = some .finish ∧ p.ended = false then 1 else 0

/-- What was produced, and what can still come of the rest, is paid for: two bytes by each byte
consumed, and one by each call that asked. -/
def Paid (consumed produced asked : Nat) (call : Option EndMode) (p : Packer) : Prop :=
  produced + p.weight + owed call p ≤ 2 * consumed + asked

theorem Paid.more {consumed produced asked : Nat} {call : Option EndMode} {p : Packer}
    (h : Paid consumed produced asked call p) (n : Nat) (unread : ByteArray) (room : Nat) :
    let e := p.run n unread room .more
    Paid (consumed + unread.size) (produced + e.given.size) asked none e.state := by
  intro e
  obtain ⟨costs, same⟩ := Packer.weight_absorb n p unread .more
  have emits : e.given.size + e.state.weight = _ := Packer.weight_run n p unread room .more
  have endings : (p.absorb n unread .more).endings = p.endings := by
    unfold Packer.endings
    rw [same nofun]
  unfold Paid at h ⊢
  have nothing : owed none e.state = 0 := rfl
  omega

theorem Paid.ask {consumed produced asked : Nat} {mode : EndMode} {p : Packer}
    (h : Paid consumed produced asked (some mode) p) (n room : Nat) :
    let e := p.run n .empty room mode
    Paid consumed (produced + e.given.size) asked
      (if e.code.isError ∨ e.code = 0 then none else some mode) e.state := by
  intro e
  obtain ⟨costs, same⟩ := Packer.weight_absorb n p .empty mode
  have emits : e.given.size + e.state.weight = _ := Packer.weight_run n p .empty room mode
  rw [ByteArray.size_empty] at costs
  have after : owed (if e.code.isError ∨ e.code = 0 then none else some mode) e.state = 0 := by
    by_cases done : e.code.isError ∨ e.code = 0
    · rw [if_pos done]
      rfl
    · rw [if_neg done]
      apply if_neg
      rintro ⟨goes, running⟩
      obtain rfl := Option.some.inj goes
      have ended := Packer.ended_run n p .empty room .finish (not_or.mp done).2
      rw [Packer.absorb_finish_ended] at ended
      cases ended.symm.trans running
  unfold Paid at h ⊢
  rw [after]
  -- only the end of a frame adds to what is to come, and it was owed
  by_cases goes : mode = .finish
  · subst goes
    have last : (p.absorb n .empty .finish).endings = 1 := if_pos (Packer.absorb_finish_ended ..)
    have before : p.endings + owed (some .finish) p = 1 := by
      unfold Packer.endings owed
      cases p.ended <;> rfl
    omega
  · have endings : (p.absorb n .empty mode).endings = p.endings := by
      unfold Packer.endings
      rw [same goes]
    omega

theorem paid_metered {n consumed produced asked : Nat} {call : Option EndMode} {p : Packer}
    (run : (compressor n).Metered {} consumed produced asked call p) :
    Paid consumed produced asked call p := by
  induction run with
  | fresh => exact Nat.le_refl 0
  | @more consumed produced asked call p size run input output inside room busy ih =>
    have step : (compressor n).step p input output .more =
        (p.run n input.unread output.room .more).over input output := rfl
    have taken : input.unread.extract 0 (p.run n input.unread output.room .more).taken =
        input.unread := ByteArray.extract_zero_size
    rw [step, Portion.taken_over, taken,
      (run_fits n p input.unread output.room .more).given_over room]
    exact ih.more n input.unread output.room
  | begin run mode asks ih =>
    unfold Paid at ih ⊢
    unfold owed at ih ⊢
    split <;> omega
  | @ask consumed produced asked mode p size run input output inside room idle ih =>
    have step : (compressor n).step p input output mode =
        (p.run n .empty output.room mode).over input output := by
      rw [← InWindow.unread_eq_empty idle]
      rfl
    have fits : (p.run n .empty output.room mode).Fits input.unread output.room := by
      rw [InWindow.unread_eq_empty idle]
      exact run_fits n p .empty output.room mode
    rw [step, Portion.code_over, fits.given_over room]
    exact ih.ask n output.room

/-- A block is at most twice as long as its content, and each frame has one byte for its end. -/
theorem producesAtMost (n : Nat) :
    (compressor n).ProducesAtMost {} fun consumed asked => 2 * consumed + asked := by
  intro consumed produced asked call p run
  have paid := paid_metered run
  unfold Paid at paid
  change produced ≤ 2 * consumed + asked
  omega

end Blocks

end Sluice
