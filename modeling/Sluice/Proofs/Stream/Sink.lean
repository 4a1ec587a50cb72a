import Sluice.Stream.Sink

namespace Sluice.Sink

variable {s s' : Sink} {bytes : ByteArray} {start : Nat}

theorem accepted_write_ok {n : Nat} (h : s.write bytes start = (.ok n, s')) :
    n ≤ bytes.size - start ∧ s'.accepted = s.accepted ++ bytes.extract start (start + n) := by
  unfold write at h
  split at h
  · cases h
    exact ⟨Nat.min_le_right _ _, rfl⟩
  · cases h
    exact ⟨Nat.min_le_right _ _, rfl⟩
  · cases h
    exact ⟨Nat.zero_le _, by simp⟩
  · cases h

theorem accepted_write_error {f : Failure} (h : s.write bytes start = (.error f, s')) :
    s'.accepted = s.accepted := by
  unfold write at h
  split at h
  · cases h
  · cases h
  · cases h
  · cases h
    rfl

/-- Success means that all bytes were taken. A failure is no interruption, and comes after a
part of the bytes only. -/
theorem accepted_writeFrom (s : Sink) (bytes : ByteArray) (start : Nat) :
    match s.writeFrom bytes start with
    | (.ok (), s') => s'.accepted = s.accepted ++ bytes.extract start bytes.size
    | (.error f, s') => f.kind ≠ .interrupted ∧ ∃ stop, start ≤ stop ∧ stop < bytes.size ∧
        s'.accepted = s.accepted ++ bytes.extract start stop := by
  fun_induction writeFrom s bytes start with
  | case1 s start inside f s' h _ again ih =>
    rw [accepted_write_error h] at ih
    exact ih
  | case2 s start inside f s' h _ final =>
    exact ⟨final, start, Nat.le_refl _, inside, by rw [accepted_write_error h]; simp⟩
  | case3 s start inside s' h =>
    refine ⟨by simp [Failure.writeZero], start, Nat.le_refl _, inside, ?_⟩
    rw [(accepted_write_ok h).2]
    rfl
  | case4 s start inside n s' h _ ih =>
    obtain ⟨fits, taken⟩ := accepted_write_ok h
    -- The part taken now and the part taken later are one part of the bytes.
    have together : ∀ stop, start + (n + 1) ≤ stop →
        s'.accepted ++ bytes.extract (start + (n + 1)) stop =
          s.accepted ++ bytes.extract start stop := by
      intro stop hs
      rw [taken, ByteArray.append_assoc, ← ByteArray.extract_eq_extract_append_extract] <;> omega
    cases hw : s'.writeFrom bytes (start + (n + 1)) with
    | mk result last =>
      rw [hw] at ih
      cases result with
      | ok => exact ih.trans (together _ (by omega))
      | error f =>
        obtain ⟨final, stop, le, lt, later⟩ := ih
        exact ⟨final, stop, by omega, lt, later.trans (together _ le)⟩
  | case5 s start outside =>
    have : bytes.extract start bytes.size = .empty :=
      ByteArray.extract_eq_empty_iff.mpr (by omega)
    simp [this]

theorem accepted_writeAll_ok (h : s.writeAll bytes = (.ok (), s')) :
    s'.accepted = s.accepted ++ bytes := by
  have := accepted_writeFrom s bytes 0
  unfold writeAll at h
  rw [h] at this
  simpa using this

theorem accepted_writeAll_error {f : Failure} (h : s.writeAll bytes = (.error f, s')) :
    f.kind ≠ .interrupted ∧
      ∃ n, n < bytes.size ∧ s'.accepted = s.accepted ++ bytes.extract 0 n := by
  have := accepted_writeFrom s bytes 0
  unfold writeAll at h
  rw [h] at this
  obtain ⟨final, stop, -, inside, accepted⟩ := this
  exact ⟨final, stop, inside, accepted⟩

theorem accepted_flush (s : Sink) : s.flush.2.accepted = s.accepted := by
  unfold flush
  split <;> rfl

/-- A sink that never fails for good: a write takes some of what it is offered or is interrupted,
and every flush succeeds. -/
structure Willing (s : Sink) : Prop where
  steady : 0 < s.steady
  takes : ∀ n, .accept n ∈ s.plan → 0 < n
  never : .refuse ∉ s.plan
  interrupts : ∀ f, .fail f ∈ s.plan → f.kind = .interrupted
  flushes : ∀ f ∈ s.flushPlan, f = none

namespace Willing

theorem next {a : WriteAnswer} {plan : List WriteAnswer} (h : s.Willing) (here : s.plan = a :: plan)
    (accepted : ByteArray) (sizes : Array Nat) :
    Willing { s with accepted, sizes, plan } := by
  have later : ∀ {b}, b ∈ plan → b ∈ s.plan := fun hb => here ▸ List.mem_cons_of_mem _ hb
  refine ⟨h.steady, ?_, fun hr => h.never (later hr), ?_, h.flushes⟩
  · intro n hn
    exact h.takes n (later hn)
  · intro f hf
    exact h.interrupts f (later hf)

theorem write_ok {n : Nat} (h : s.Willing) (inside : start < bytes.size)
    (hw : s.write bytes start = (.ok n, s')) : 0 < n ∧ s'.Willing := by
  unfold write at hw
  split at hw
  · rename_i used
    cases hw
    refine ⟨Nat.lt_min.mpr ⟨h.steady, by omega⟩, h.steady, nofun, nofun, nofun, h.flushes⟩
  · rename_i limit plan here
    cases hw
    have takes := h.takes limit (here ▸ List.mem_cons_self)
    exact ⟨Nat.lt_min.mpr ⟨takes, by omega⟩, h.next here _ _⟩
  · rename_i plan here
    exact absurd (here ▸ List.mem_cons_self) h.never
  · cases hw

theorem write_error {f : Failure} (h : s.Willing) (hw : s.write bytes start = (.error f, s')) :
    f.kind = .interrupted ∧ s'.Willing := by
  unfold write at hw
  split at hw
  · cases hw
  · cases hw
  · cases hw
  · rename_i g plan here
    cases hw
    exact ⟨h.interrupts f (here ▸ List.mem_cons_self), h.next here _ _⟩

theorem writeFrom (h : s.Willing) (bytes : ByteArray) (start : Nat) :
    (s.writeFrom bytes start).1 = .ok () ∧ (s.writeFrom bytes start).2.Willing := by
  fun_induction Sink.writeFrom s bytes start with
  | case1 s start inside f s' hw _ again ih => exact ih (h.write_error hw).2
  | case2 s start inside f s' hw _ final => exact absurd (h.write_error hw).1 final
  | case3 s start inside s' hw => exact absurd (h.write_ok inside hw).1 (Nat.lt_irrefl 0)
  | case4 s start inside n s' hw _ ih => exact ih (h.write_ok inside hw).2
  | case5 s start outside => exact ⟨rfl, h⟩

theorem writeAll (h : s.Willing) (bytes : ByteArray) :
    (s.writeAll bytes).1 = .ok () ∧ (s.writeAll bytes).2.Willing ∧
      (s.writeAll bytes).2.accepted = s.accepted ++ bytes := by
  obtain ⟨ok, willing⟩ := h.writeFrom bytes 0
  exact ⟨ok, willing, accepted_writeAll_ok (Prod.ext ok rfl)⟩

theorem flush (h : s.Willing) : s.flush.1 = .ok () ∧ s.flush.2.Willing := by
  have left : ∀ f ∈ s.flushPlan.tail, f = none := fun f hf => h.flushes f (List.mem_of_mem_tail hf)
  unfold Sink.flush
  split
  · rename_i f first
    cases h.flushes _ (List.mem_of_mem_head? first)
  · exact ⟨rfl, h.steady, h.takes, h.never, h.interrupts, left⟩

end Willing

end Sluice.Sink
