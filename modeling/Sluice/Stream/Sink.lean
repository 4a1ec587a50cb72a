import Sluice.Fault

namespace Sluice

inductive WriteAnswer
  | accept (limit : Nat)
  | refuse
  | fail (failure : Failure)

/-- A run that returns meets finitely many answers, so that a finite plan covers any writer. -/
structure Sink where
  accepted : ByteArray := .empty
  sizes : Array Nat := #[]
  flushes : Nat := 0
  plan : List WriteAnswer := []
  /-- What a write takes at most once the plan is used up. -/
  steady : Nat
  /-- What the next flushes answer; after them flushing succeeds. -/
  flushPlan : List (Option Failure) := []

namespace Sink

def write (s : Sink) (bytes : ByteArray) (start : Nat) : Except Failure Nat × Sink :=
  let take (limit : Nat) (plan : List WriteAnswer) :=
    let n := min limit (bytes.size - start)
    let accepted := s.accepted ++ bytes.extract start (start + n)
    (.ok n, { s with accepted, sizes := s.sizes.push n, plan })
  match s.plan with
  | [] => take s.steady []
  | .accept limit :: plan => take limit plan
  | .refuse :: plan => (.ok 0, { s with plan })
  | .fail f :: plan => (.error f, { s with plan })

theorem plan_write_ok {s s' : Sink} {bytes : ByteArray} {start n : Nat}
    (h : s.write bytes start = (.ok n, s')) : s'.plan.length ≤ s.plan.length := by
  unfold write at h
  split at h <;> simp only [Prod.mk.injEq, Except.ok.injEq, reduceCtorEq, false_and] at h <;>
    obtain ⟨-, rfl⟩ := h <;> simp_all

theorem plan_write_error {s s' : Sink} {bytes : ByteArray} {start : Nat} {f : Failure}
    (h : s.write bytes start = (.error f, s')) : s'.plan.length < s.plan.length := by
  unfold write at h
  split at h <;> simp only [Prod.mk.injEq, reduceCtorEq, false_and] at h
  obtain ⟨-, rfl⟩ := h
  simp_all

/-- Offer `bytes` from `start` on until all are taken. An interrupted call is repeated, a call
that takes nothing is a failure. -/
def writeFrom (s : Sink) (bytes : ByteArray) (start : Nat) : Except Failure Unit × Sink :=
  if start < bytes.size then
    match h : s.write bytes start with
    | (.error f, s') =>
      have := plan_write_error h
      if f.kind = .interrupted then s'.writeFrom bytes start else (.error f, s')
    | (.ok 0, s') => (.error .writeZero, s')
    | (.ok (n + 1), s') =>
      have := plan_write_ok h
      s'.writeFrom bytes (start + (n + 1))
  else (.ok (), s)
termination_by s.plan.length + (bytes.size - start)

def writeAll (s : Sink) (bytes : ByteArray) : Except Failure Unit × Sink := s.writeFrom bytes 0

def flush (s : Sink) : Except Failure Unit × Sink :=
  let s' := { s with flushes := s.flushes + 1, flushPlan := s.flushPlan.tail }
  match s.flushPlan.head? with
  | some (some f) => (.error f, s')
  | _ => (.ok (), s')

end Sink

end Sluice
