import Sluice.Proofs.Stream.WatchedWriter

namespace Sluice.CompressWriter

variable {σ : Type} {codec : Compressor σ} {budget : Nat} {w w' : CompressWriter σ}
  {ms : List Move}

theorem Move.Accounted.size_le {m : Move} (h : m.Accounted) : m.arrived.size ≤ m.given.size := by
  by_cases hs : m.sent = .ok ()
  · exact Nat.le_of_eq (congrArg ByteArray.size (h.1 hs))
  · obtain ⟨n, less, part⟩ := h.2 hs
    rw [part, ByteArray.size_extract]
    omega

theorem Move.Accounted.size_lt {m : Move} (h : m.Accounted) (hs : m.sent ≠ .ok ()) :
    m.arrived.size < m.given.size := by
  obtain ⟨n, less, part⟩ := h.2 hs
  rw [part, ByteArray.size_extract]
  omega

theorem size_joined_arrived_le (h : ∀ m ∈ ms, m.Accounted) :
    (joined (ms.map (·.arrived))).size ≤ (joined (ms.map (·.given))).size := by
  induction ms with
  | nil => exact Nat.le_refl 0
  | cons m ms ih =>
    have head := (h m List.mem_cons_self).size_le
    have tail := ih fun n hn => h n (List.mem_cons_of_mem _ hn)
    simp only [List.map_cons, joined_cons, ByteArray.size_append]
    omega

/-- Bytes that did not arrive leave a hole that later bytes do not hide. -/
theorem joined_arrived_eq_iff (h : ∀ m ∈ ms, m.Accounted) :
    joined (ms.map (·.arrived)) = joined (ms.map (·.given)) ↔ ∀ m ∈ ms, m.sent = .ok () := by
  constructor
  · intro same
    induction ms with
    | nil => nofun
    | cons m ms ih =>
      have others : ∀ n ∈ ms, n.Accounted := fun n hn => h n (List.mem_cons_of_mem _ hn)
      have own := h m List.mem_cons_self
      simp only [List.map_cons, joined_cons] at same
      have sent : m.sent = .ok () := by
        cases hs : m.sent with
        | ok => rfl
        | error f =>
          have less := own.size_lt (by simp [hs])
          have tail := size_joined_arrived_le others
          have sizes := congrArg ByteArray.size same
          simp only [ByteArray.size_append] at sizes
          omega
      rw [own.1 sent] at same
      intro n hn
      rcases List.mem_cons.mp hn with rfl | hn
      · exact sent
      · exact ih others ((ByteArray.append_right_inj _).mp same) n hn
  · intro sent
    have each : ms.map (·.arrived) = ms.map (·.given) :=
      List.map_congr_left fun m hm => (h m hm).1 (sent m hm)
    rw [each]

/-- A stream reported as closed holds all bytes that the codec produced exactly if the sink took
the output of every step of the calls before, whatever else failed in them. A codec that keeps a
record of its calls is called for these steps and no others. -/
theorem finish_whole_iff (codec : Compressor σ) (obeys : codec.Obeys) (budget : Nat)
    (w w' : CompressWriter σ) (calls : List Call) (log : List Served)
    (served : w.serveAll codec budget calls = some (log, w'))
    (r : Logged (Except Failure Unit × CompressWriter σ))
    (closed : w'.finish codec budget = some r) (ok : r.value.1 = .ok ()) :
    let produced := log.flatMap (·.moves) ++ w'.drainMoves codec budget .finish
    (r.value.2.sink.accepted = w.sink.accepted ++ joined (produced.map (·.given)) ↔
      ∀ x ∈ log, ∀ m ∈ x.moves, m.sent = .ok ()) ∧
    ∃ saw last r', Sees (saw ++ last) produced ∧
      (w.watching []).serveAll codec.watched budget calls = some (log, w'.watching saw) ∧
      (w'.watching saw).finish codec.watched budget = some r' ∧
      r'.value = (r.value.1, r.value.2.watching (saw ++ last)) := by
  intro produced
  obtain ⟨saw, sees, before⟩ := serveAll_watching served []
  obtain ⟨last, r', sees', -, after, value⟩ := finish_watching closed saw
  refine ⟨?_, saw, last, r', sees.append sees', before, after, value⟩
  obtain ⟨d, hd, hv⟩ := finish_value closed
  have draining := draining_drain obeys hd
  rw [hv] at ok ⊢
  have trail : Trail codec w produced (settled d.value).2 :=
    (trail_serveAll obeys served).trans draining.trail_settled
  have last : ∀ m ∈ w'.drainMoves codec budget .finish, m.sent = .ok () :=
    fun m hm => (draining.fine (settled_ok ok).1 m hm).2
  rw [trail.accepted obeys, ByteArray.append_right_inj, joined_arrived_eq_iff trail.accounted]
  constructor
  · intro sent x hx m hm
    exact sent m (List.mem_append_left _ (List.mem_flatMap.mpr ⟨x, hx, hm⟩))
  · intro sent m hm
    rcases List.mem_append.mp hm with before | after
    · obtain ⟨x, hx, hm⟩ := List.mem_flatMap.mp before
      exact sent x hx m hm
    · exact last m after

/-- A writer whose sink is interrupted once, takes a single byte, and then all it is offered. -/
def halting : CompressWriter Unit :=
  create { plan := [.fail ⟨.interrupted, "signal"⟩, .accept 1], steady := 100 } () 8

theorem finish_whole_halting :
    ∃ log w' r, halting.serveAll (Echo.compressor 8) 4 [.write ⟨#[1, 2]⟩, .flush] = some (log, w') ∧
      w'.finish (Echo.compressor 8) 4 = some r ∧ r.value.1 = .ok () ∧
      ∀ x ∈ log, ∀ m ∈ x.moves, m.sent = .ok () := by
  have run : outcome (Echo.compressor 8) 4 halting [.write ⟨#[1, 2]⟩, .flush] =
      some (true, true, ⟨#[1, 2]⟩, ⟨#[1, 2]⟩) := by decide +kernel
  obtain ⟨log, w', r, served, -, closed, ok, accepted, given⟩ := outcome_eq_some run
  obtain ⟨whole, -⟩ := finish_whole_iff _ (Echo.compressor_obeys 8) 4 _ w' _ log served r closed ok
  refine ⟨log, w', r, served, closed, ok, whole.mp ?_⟩
  rw [accepted, given]
  rfl

/-- A writer whose sink fails its first write and takes all later ones. -/
def refused : CompressWriter Unit :=
  create { plan := [.fail ⟨.device "PermissionDenied", "denied"⟩], steady := 100 } () 8

/-- The bytes offered to the failing write are gone, and the stream is closed without them. -/
theorem finish_hole :
    (Echo.compressor 8).Obeys ∧
      ∃ log w' r, refused.serveAll (Echo.compressor 8) 4 [.write ⟨#[1, 2]⟩] = some (log, w') ∧
        w'.finish (Echo.compressor 8) 4 = some r ∧ r.value.1 = .ok () ∧
        r.value.2.sink.accepted ≠ refused.sink.accepted ++
          joined ((log.flatMap (·.moves) ++ w'.drainMoves (Echo.compressor 8) 4 .finish).map
            (·.given)) := by
  refine ⟨Echo.compressor_obeys 8, ?_⟩
  have run : outcome (Echo.compressor 8) 4 refused [.write ⟨#[1, 2]⟩] =
      some (false, true, .empty, ⟨#[1, 2]⟩) := by decide +kernel
  obtain ⟨log, w', r, served, -, closed, ok, accepted, given⟩ := outcome_eq_some run
  refine ⟨log, w', r, served, closed, ok, ?_⟩
  rw [accepted, given]
  decide

end Sluice.CompressWriter
