import Sluice.Proofs.Codec.Packing

namespace Sluice

variable {σ ρ : Type} {size : Nat}

/-- All that a step does once the bytes `all` are queued. A code below the errors is the number of
bytes that stay queued. -/
structure Answer.Emits (a : Answer σ size) (input : InWindow) (output : OutWindow size)
    (queue : σ → ByteArray) (all : ByteArray) : Prop where
  inPos : a.inPos = input.src.size
  outPos : a.output.pos = output.pos + min all.size output.room
  given : a.given output = all.extract 0 (min all.size output.room)
  queued : queue a.state = all.extract (min all.size output.room) all.size
  code : a.code.isError = false → a.code.toNat = (queue a.state).size

/-- A compressor that works through a queue. What a step queues, and what is known besides the
queue after it, depends on what was known, the bytes shown and the mode. Asking again for what is
still queued queues nothing. -/
structure Compressor.Queued (codec : Compressor σ) (ρ : Type) where
  queue : σ → ByteArray
  rest : σ → ρ
  absorb : ρ → ByteArray → EndMode → ByteArray × ρ
  emits : ∀ {size : Nat} (s : σ) (input : InWindow) (output : OutWindow size) (mode : EndMode),
    input.Inside → output.Inside → (codec.step s input output mode).Emits input output queue
      (queue s ++ (absorb (rest s) input.unread mode).1)
  keeps : ∀ {size : Nat} (s : σ) (input : InWindow) (output : OutWindow size) (mode : EndMode),
    input.Inside → output.Inside →
      rest (codec.step s input output mode).state = (absorb (rest s) input.unread mode).2
  again : ∀ {size : Nat} (s : σ) (input : InWindow) (output : OutWindow size) (mode : EndMode),
    input.Inside → output.Inside → mode ≠ .more → input.left = 0 →
      let t := (codec.step s input output mode).state
      queue t ≠ .empty → absorb (rest t) .empty mode = (.empty, rest t)

theorem Compressor.Queued.obeys {codec : Compressor σ} (q : codec.Queued ρ) : codec.Obeys := by
  intro size s input output mode hi ho
  have emits := q.emits s input output mode hi ho
  have room : output.room = size - output.pos := rfl
  unfold InWindow.Inside at hi
  unfold OutWindow.Inside at ho
  refine ⟨?_, ?_, ?_, ?_⟩
  · rw [emits.inPos]
    exact hi
  · exact Nat.le_of_eq emits.inPos
  · rw [emits.outPos]
    exact Nat.le_add_right _ _
  · rw [emits.outPos, room]
    omega

/-- One step of the compressor that queues what `absorb` says. A number of bytes that no hint can
tell is answered as an error. -/
def queueStep (absorb : ρ → ByteArray → EndMode → ByteArray × ρ) (s : ByteArray × ρ)
    (unread : ByteArray) (room : Nat) (mode : EndMode) : Portion (ByteArray × ρ) :=
  let (more, r) := absorb s.2 unread mode
  let all := s.1 ++ more
  let n := min all.size room
  let left := all.extract n all.size
  ⟨.ofNat (min left.size (UInt64.size - 1)), (left, r), unread.size, all.extract 0 n⟩

def queueing (absorb : ρ → ByteArray → EndMode → ByteArray × ρ) : Compressor (ByteArray × ρ) :=
  .ofSlices Echo.setParameter (queueStep absorb)

theorem toNat_of_hint {n : Nat} (h : Word.isError (.ofNat (min n (UInt64.size - 1))) = false) :
    (UInt64.ofNat (min n (UInt64.size - 1))).toNat = n := by
  have top : (Word.ofError Word.reservedErrors).toNat = UInt64.size - 120 := by decide
  have value : (UInt64.ofNat (min n (UInt64.size - 1))).toNat = min n (UInt64.size - 1) := by
    rw [UInt64.toNat_ofNat']
    exact Nat.mod_eq_of_lt (Nat.lt_of_le_of_lt (Nat.min_le_right _ _) (by decide))
  unfold Word.isError at h
  rw [decide_eq_false_iff_not, UInt64.lt_iff_toNat_lt, top, value] at h
  rw [value]
  have : UInt64.size = 18446744073709551616 := rfl
  omega

section Queueing

variable {absorb : ρ → ByteArray → EndMode → ByteArray × ρ}

theorem size_given_queueStep (s : ByteArray × ρ) (unread : ByteArray) (room : Nat)
    (mode : EndMode) : (queueStep absorb s unread room mode).given.size =
      min (s.1 ++ (absorb s.2 unread mode).1).size room := by
  unfold queueStep
  rw [ByteArray.size_extract]
  omega

theorem queueStep_fits (absorb : ρ → ByteArray → EndMode → ByteArray × ρ) (s : ByteArray × ρ)
    (unread : ByteArray) (room : Nat) (mode : EndMode) :
    (queueStep absorb s unread room mode).Fits unread room := by
  refine ⟨Nat.le_refl _, ?_⟩
  rw [size_given_queueStep]
  exact Nat.min_le_right _ _

/-- The compressor that queues what `absorb` says, if that is nothing once it was asked for all. -/
def queueing_queued (absorb : ρ → ByteArray → EndMode → ByteArray × ρ)
    (still : ∀ r mode, mode ≠ .more →
      absorb (absorb r .empty mode).2 .empty mode = (.empty, (absorb r .empty mode).2)) :
    (queueing absorb).Queued ρ where
  queue := (·.1)
  rest := (·.2)
  absorb := absorb
  emits := by
    intro size s input output mode hi ho
    have fits := queueStep_fits absorb s input.unread output.room mode
    have step : (queueing absorb).step s input output mode =
        (queueStep absorb s input.unread output.room mode).over input output := rfl
    rw [step]
    refine ⟨?_, ?_, fits.given_over ho, rfl, toNat_of_hint⟩
    · change input.pos + input.unread.size = input.src.size
      rw [InWindow.size_unread]
      exact Nat.add_sub_of_le hi
    · rw [fits.pos_over ho, size_given_queueStep]
  keeps := by
    intro size s input output mode hi ho
    rfl
  again := by
    intro size s input output mode hi ho more idle t pending
    have known : t.2 = (absorb s.2 input.unread mode).2 := rfl
    rw [known, InWindow.unread_eq_empty idle]
    exact still s.2 mode more

end Queueing

namespace Blocks

/-- What the block compressor queues, and what it holds besides. The end of a frame stays known
after it was emitted. -/
def absorbing (n : Nat) (p : Packer) (unread : ByteArray) (mode : EndMode) : ByteArray × Packer :=
  let p := p.absorb n unread mode
  (p.queue, { p with queue := .empty })

theorem absorbing_still {n : Nat} (positive : 0 < n) (p : Packer) {mode : EndMode}
    (asked : mode ≠ .more) :
    absorbing n (absorbing n p .empty mode).2 .empty mode =
      (.empty, (absorbing n p .empty mode).2) := by
  have nothing : (p.absorb n .empty mode).held = .empty := by
    cases mode with
    | more => exact absurd rfl asked
    | flush => exact Packer.held_queueRest _
    | finish =>
      change (Packer.queueEnd _).held = .empty
      unfold Packer.queueEnd
      split
      · exact Packer.held_queueRest _
      · exact Packer.held_queueRest _
  have closed : mode = .finish → (p.absorb n .empty mode).ended = true := by
    rintro rfl
    change (Packer.queueEnd _).ended = true
    unfold Packer.queueEnd
    split
    · assumption
    · rfl
  have same : Packer.absorb n (absorbing n p .empty mode).2 .empty mode =
      (absorbing n p .empty mode).2 :=
    Packer.absorb_still (p := (absorbing n p .empty mode).2) nothing positive closed
  change (_, ({ Packer.absorb n (absorbing n p .empty mode).2 .empty mode with
    queue := .empty } : Packer)) = _
  rw [same]
  rfl

def queueingCompressor (n : Nat) : Compressor (ByteArray × Packer) := queueing (absorbing n)

def queueingCompressor_queued {n : Nat} (positive : 0 < n) :
    (queueingCompressor n).Queued Packer :=
  queueing_queued (absorbing n) fun p _ => absorbing_still positive p

end Blocks

end Sluice
