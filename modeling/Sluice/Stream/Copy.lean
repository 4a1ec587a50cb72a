import Sluice.Stream.Reader
import Sluice.Stream.Writer

namespace Sluice

/-- What was delivered before the end or a failure, and what it came from. -/
structure Delivery (ρ : Type) where
  content : ByteArray
  ended : Except Failure Unit
  rest : ρ

namespace Source

def effort (s : Source) : Nat := s.ahead.length + s.queue.length

theorem effort_fill_error {s s' : Source} {f : Failure} (h : s.fill = (.error f, s')) :
    s'.effort < s.effort := by
  unfold fill at h
  simp only at h
  split at h <;> rename_i ahead
  · obtain ⟨-, rfl⟩ := Prod.mk.injEq .. ▸ h
    cases ha : s.ahead <;> simp_all [effort]
  · unfold front at h
    have hl := (List.dropWhile_sublist Item.isSpent (l := s.queue)).length_le
    split at h <;> rename_i heq <;> simp only [Prod.mk.injEq, reduceCtorEq, false_and] at h
    obtain ⟨-, rfl⟩ := h
    rw [heq] at hl
    simp only [effort, List.length_tail, List.length_cons] at hl ⊢
    omega

theorem effort_consume_fill {s s' : Source} {shown : ByteArray} (h : s.fill = (.ok shown, s'))
    (shows : shown.isEmpty = false) : (s'.consume shown.size).effort < s.effort := by
  have hs : shown.size ≠ 0 := by simpa [ByteArray.isEmpty] using shows
  unfold fill at h
  simp only at h
  split at h
  · rename_i g _
    cases g <;> simp [Gap.answer] at h
    exact absurd (congrArg ByteArray.size h.1.symm) (by simpa using hs)
  · unfold front at h
    have hl := (List.dropWhile_sublist Item.isSpent (l := s.queue)).length_le
    split at h <;> rename_i heq <;> simp only [Prod.mk.injEq, Except.ok.injEq] at h
    · exact absurd (congrArg ByteArray.size h.1.symm) (by simpa using hs)
    · obtain ⟨rfl, rfl⟩ := h
      rw [heq] at hl
      simp only [consume, effort, Nat.lt_irrefl, ↓reduceIte, List.length_tail, List.length_cons]
        at hl ⊢
      omega
    · rename_i g _
      cases g <;> simp [Gap.answer] at h
      exact absurd (congrArg ByteArray.size h.1.symm) (by simpa using hs)

def drainInto (content : ByteArray) (s : Source) : Delivery Source :=
  match h : s.fill with
  | (.error f, s') =>
    have := effort_fill_error h
    if f.kind = .interrupted then drainInto content s' else ⟨content, .error f, s'⟩
  | (.ok shown, s') =>
    if shows : shown.isEmpty then ⟨content, .ok (), s'⟩
    else
      have := effort_consume_fill h (by simpa using shows)
      drainInto (content ++ shown) (s'.consume shown.size)
termination_by s.effort

def drain (s : Source) : Delivery Source := drainInto .empty s

end Source

namespace DecompressReader

variable {τ : Type}

/-- One read of reading to the end: no bytes end it, and an interrupted read is repeated. -/
def drainTurn (codec : Decompressor τ) (buf : ByteArray) :
    ByteArray × DecompressReader τ →
      Logged (Turn (ByteArray × DecompressReader τ) (Delivery (DecompressReader τ)))
  | (content, r) => (r.read codec buf).map fun
    | (.ok piece, r) =>
      if piece.isEmpty then .done ⟨content, .ok (), r⟩ else .again (content ++ piece, r)
    | (.error f, r) =>
      if f.kind = .interrupted then .again (content, r) else .done ⟨content, .error f, r⟩

def drain (codec : Decompressor τ) (budget : Nat) (r : DecompressReader τ) :
    Option (Logged (Delivery (DecompressReader τ))) :=
  Logged.repeatUntil (drainTurn codec ⟨Array.replicate 8192 0⟩) budget (.empty, r)

end DecompressReader

inductive TransferFault
  | source (failure : Failure)
  | writer (failure : Failure)

namespace CompressWriter

variable {σ : Type}

/-- What feeding a source to a writer comes to; `none` if the writer ran out of steps. -/
abbrev Transfer (σ : Type) := Option (Except TransferFault Unit × CompressWriter σ)

def transferTurn (codec : Compressor σ) (budget : Nat) :
    Source × CompressWriter σ → Logged (Turn (Source × CompressWriter σ) (Transfer σ))
  | (source, w) =>
    match source.fill with
    | (.error f, _) => pure (.done (some (.error (.source f), w)))
    | (.ok piece, source) =>
      if piece.isEmpty then pure (.done (some (.ok (), w)))
      else match w.writeAll codec budget piece with
        | none => pure (.done none)
        | some written => written.map fun
          | (.ok (), w) => .again (source.consume piece.size, w)
          | (.error f, w) => .done (some (.error (.writer f), w))

def transfer (codec : Compressor σ) (budget : Nat) (w : CompressWriter σ) (source : Source) :
    Option (Logged (Except TransferFault Unit × CompressWriter σ)) := do
  let t ← Logged.repeatUntil (transferTurn codec budget) budget (source, w)
  let answer ← t.value
  return ⟨answer, t.events⟩

end CompressWriter

end Sluice
