import Sluice.Proofs.Stream.Accounts
import Sluice.Proofs.Stream.CutPoints
import Sluice.Proofs.Stream.Endings

namespace Sluice

namespace CompressWriter

variable {σ : Type} {codec : Compressor σ} {budget : Nat} {w w' : CompressWriter σ}
  {ms : List Move}

theorem isOk_iff {result : Except Failure Unit} : result.isOk = true ↔ result = .ok () := by
  cases result <;> simp [Except.isOk, Except.toBool]

/-- What the sink took of outputs that it did not take in full. -/
def uncounted (ms : List Move) : ByteArray := joined ((ms.filter (!·.sent.isOk)).map (·.arrived))

theorem size_joined_arrived (h : ∀ m ∈ ms, m.Accounted) :
    (joined (ms.map (·.arrived))).size =
      (joined ((ms.filter (·.sent.isOk)).map (·.given))).size + (uncounted ms).size := by
  have whole : (ms.filter (·.sent.isOk)).map (·.arrived) =
      (ms.filter (·.sent.isOk)).map (·.given) := by
    apply List.map_congr_left
    intro m hm
    obtain ⟨hm, sent⟩ := List.mem_filter.mp hm
    exact (h m hm).1 (isOk_iff.mp sent)
  rw [size_joined_filter (·.sent.isOk), whole]
  rfl

theorem Balanced.size_accepted (books : Balanced w ms w') :
    w'.sink.accepted.size + w.totalOut =
      w.sink.accepted.size + w'.totalOut + (uncounted ms).size := by
  rw [books.accepted, books.totalOut, ByteArray.size_append, size_joined_arrived books.accounted]
  omega

theorem uncounted_eq_empty_iff :
    uncounted ms = .empty ↔ ∀ m ∈ ms, m.sent ≠ .ok () → m.arrived = .empty := by
  unfold uncounted
  rw [joined_filter_eq_empty_iff]
  simp only [Bool.not_eq_true', ← Bool.not_eq_true, isOk_iff, ne_eq]

/-- What a sink has accepted from a writer is what the writer counts and, besides, what the sink
took of outputs before it failed. So the count is right exactly if no failing sink took a byte. A
codec that keeps a record of its calls is called for the steps of the run and no others. -/
theorem totalOut_eq_accepted_iff (codec : Compressor σ) (obeys : codec.Obeys) (budget : Nat)
    (sink : Sink) (s : σ) (chunk : Nat) (calls : List Call) (log : List Served)
    (w : CompressWriter σ)
    (served : (create sink s chunk).serveAll codec budget calls = some (log, w)) :
    w.sink.accepted.size =
        sink.accepted.size + w.totalOut + (uncounted (log.flatMap (·.moves))).size ∧
      (w.sink.accepted.size = sink.accepted.size + w.totalOut ↔
        ∀ x ∈ log, ∀ m ∈ x.moves, m.sent ≠ .ok () → m.arrived = .empty) ∧
      ∃ saw, Sees saw (log.flatMap (·.moves)) ∧
        ((create sink s chunk).watching []).serveAll codec.watched budget calls =
          some (log, w.watching saw) := by
  have books := ((trail_serveAll obeys served).balanced obeys).size_accepted
  have count : w.sink.accepted.size =
      sink.accepted.size + w.totalOut + (uncounted (log.flatMap (·.moves))).size := books
  refine ⟨count, ?_, serveAll_watching served []⟩
  have none : (∀ x ∈ log, ∀ m ∈ x.moves, m.sent ≠ .ok () → m.arrived = .empty) ↔
      uncounted (log.flatMap (·.moves)) = .empty := by
    rw [uncounted_eq_empty_iff]
    simp only [List.mem_flatMap]
    constructor
    · rintro each m ⟨x, hx, hm⟩
      exact each x hx m hm
    · intro each x hx m hm
      exact each m ⟨x, hx, hm⟩
  rw [none, ← ByteArray.size_eq_zero_iff]
  omega

def standing (codec : Compressor σ) (budget : Nat) (w : CompressWriter σ) (calls : List Call) :
    Option (List Bool × Nat × ByteArray) :=
  (w.serveAll codec budget calls).map fun (log, w') =>
    (log.map (·.answer.isOk), w'.totalOut, w'.sink.accepted)

theorem standing_eq_some {calls : List Call} {oks : List Bool} {totalOut : Nat}
    {accepted : ByteArray} (h : standing codec budget w calls = some (oks, totalOut, accepted)) :
    ∃ log w', w.serveAll codec budget calls = some (log, w') ∧ log.map (·.answer.isOk) = oks ∧
      w'.totalOut = totalOut ∧ w'.sink.accepted = accepted := by
  obtain ⟨⟨log, w'⟩, served, h⟩ := Option.map_eq_some_iff.mp h
  cases h
  exact ⟨log, w', served, rfl, rfl, rfl⟩

/-- A sink that fails before it takes a byte, and then takes single bytes. -/
def balking : CompressWriter Unit :=
  create { plan := [.fail ⟨.device "PermissionDenied", "denied"⟩], steady := 1 } () 8

/-- A write that failed leaves the count right if its bytes were all lost. -/
theorem totalOut_eq_accepted_balking :
    ∃ log w, balking.serveAll (Echo.compressor 8) 4 [.write ⟨#[1, 2]⟩, .write ⟨#[3, 4]⟩] =
        some (log, w) ∧
      log.map (·.answer.isOk) = [false, true] ∧ w.totalOut = 2 ∧
      ∀ x ∈ log, ∀ m ∈ x.moves, m.sent ≠ .ok () → m.arrived = .empty := by
  have run : standing (Echo.compressor 8) 4 balking [.write ⟨#[1, 2]⟩, .write ⟨#[3, 4]⟩] =
      some ([false, true], 2, ⟨#[3, 4]⟩) := by decide +kernel
  obtain ⟨log, w, served, oks, totalOut, accepted⟩ := standing_eq_some run
  obtain ⟨-, right, -⟩ :=
    totalOut_eq_accepted_iff _ (Echo.compressor_obeys 8) 4 _ () 8 _ log w served
  refine ⟨log, w, served, oks, totalOut, right.mp ?_⟩
  rw [accepted, totalOut]
  rfl

/-- A sink that takes one byte and then fails. -/
def tearing : CompressWriter Unit :=
  create { plan := [.accept 1, .fail ⟨.device "PermissionDenied", "denied"⟩], steady := 1 } () 8

/-- The byte that the sink took before it failed is in no count. -/
theorem totalOut_ne_accepted_tearing :
    (Echo.compressor 8).Obeys ∧
      ∃ log w, tearing.serveAll (Echo.compressor 8) 4 [.write ⟨#[1, 2]⟩] = some (log, w) ∧
        w.totalOut = 0 ∧ w.sink.accepted.size = 1 ∧ tearing.sink.accepted.size = 0 := by
  have run : standing (Echo.compressor 8) 4 tearing [.write ⟨#[1, 2]⟩] =
      some ([false], 0, ⟨#[1]⟩) := by decide +kernel
  obtain ⟨log, w, served, -, totalOut, accepted⟩ := standing_eq_some run
  exact ⟨Echo.compressor_obeys 8, log, w, served, totalOut, by rw [accepted]; rfl, rfl⟩

end CompressWriter

namespace DecompressReader

variable {τ : Type} {codec : Decompressor τ} {r r' : DecompressReader τ} {buf : ByteArray}

/-- What steps produced that answered an error. -/
def withheld (ms : List Move) : ByteArray := joined ((ms.filter (·.code.isError)).map (·.given))

theorem Round.totalOut {m : Option Move} {t : Turn (DecompressReader τ × ByteArray) (Reply τ)}
    (h : Round codec r buf m t) (obeys : codec.Obeys) :
    (after t).totalOut = r.totalOut + (joined (m.toList.map (·.given))).size := by
  cases h with
  | unfilled fill => rfl
  | ended fill closed => rfl
  | @stepped shown source t fill goes verdict =>
    have within : (r.answer codec shown buf).Within ⟨shown, 0⟩ (.whole buf) :=
      obeys _ _ _ (Nat.zero_le _) (OutWindow.whole_inside buf)
    have size : (r.move codec shown buf).given.size = (r.answer codec shown buf).output.pos :=
      within.size_given
    rw [Option.toList_some, List.map_singleton, joined_cons, joined_nil, ByteArray.append_empty,
      size]
    cases verdict <;> rfl

theorem Trail.totalOut {ms : List Move} (t : Trail codec r ms r') (obeys : codec.Obeys) :
    r'.totalOut = r.totalOut + (joined (ms.map (·.given))).size := by
  induction t with
  | refl r => rfl
  | round room first rest ih =>
    rw [ih, first.totalOut obeys, List.map_append, joined_append, ByteArray.size_append,
      Nat.add_assoc]

/-- A turn that answers returns what its step produced, unless the step failed. -/
theorem Round.returned {m : Option Move} {answer : Reply τ}
    (h : Round codec r buf m (.done answer)) (room : buf ≠ .empty) :
    returned [answer.1] = joined ((m.toList.filter (!·.code.isError)).map (·.given)) := by
  cases h with
  | unfilled fill => rfl
  | ended fill closed => rfl
  | @stepped shown source t fill goes verdict =>
    have silent : (r.answer codec shown buf).output.pos = 0 →
        (r.move codec shown buf).given = .empty := (given_eq_empty_iff room).mpr
    have alone (fine : (r.move codec shown buf).code.isError = false) :
        joined (([r.move codec shown buf].filter (!·.code.isError)).map (·.given)) =
          (r.move codec shown buf).given := by
      simp [fine]
    cases verdict with
    | failed error =>
      have failed : (r.move codec shown buf).code.isError = true := error
      simp [failed]
    | piece fine produced => exact (returned_ok _).trans (alone fine).symm
    | truncated fine none dry => exact ((alone fine).trans (silent none)).symm
    | stalled fine none shows still => exact ((alone fine).trans (silent none)).symm

theorem returned_read (codec : Decompressor τ) (r : DecompressReader τ) (buf : ByteArray) :
    returned [(r.read codec buf).value.1] =
      joined (((r.readMoves codec buf).filter (!·.code.isError)).map (·.given)) := by
  by_cases room : buf = .empty
  · subst room
    rfl
  · obtain ⟨before, last, states, space, -, goesOn, answered⟩ :=
      split_turns (turns_read codec r room) room
    -- the steps of the turns before the last gave nothing
    have none : joined (((movesFrom codec before).filter (!·.code.isError)).map (·.given)) =
        .empty := by
      apply joined_of_empty
      intro b hb
      obtain ⟨m, hm, rfl⟩ := List.mem_map.mp hb
      exact (goesOn m (List.mem_of_mem_filter hm)).given
    rw [readMoves_of_room room, states, movesFrom_append, movesFrom_singleton, List.filter_append,
      List.map_append, joined_append, none, ByteArray.empty_append]
    exact answered.returned space

theorem returned_readAll (codec : Decompressor τ) (r : DecompressReader τ)
    (bufs : List ByteArray) :
    returned (r.readAll codec bufs).1 =
      joined (((r.readAllMoves codec bufs).filter (!·.code.isError)).map (·.given)) := by
  induction bufs generalizing r with
  | nil => rfl
  | cons buf bufs ih =>
    rw [readAll_cons rfl, returned_cons, returned_read, ih]
    simp [readAllMoves]

/-- A reader counts what its reads returned and, besides, what steps produced that answered an
error. So the count is right exactly if no such step produced a byte. -/
theorem totalOut_eq_returned_iff (codec : Decompressor τ) (obeys : codec.Obeys) (source : Source)
    (fresh : τ) (bufs : List ByteArray) :
    let reader : DecompressReader τ := { source, session := fresh }
    let steps := reader.readAllMoves codec bufs
    let (answers, r) := reader.readAll codec bufs
    r.totalOut = (returned answers).size + (withheld steps).size ∧
      (r.totalOut = (returned answers).size ↔
        ∀ m ∈ steps, m.code.isError = true → m.given = .empty) := by
  intro reader steps
  have count : (reader.readAll codec bufs).2.totalOut =
      (returned (reader.readAll codec bufs).1).size + (withheld steps).size := by
    have all := ((trail_readAll codec reader bufs).totalOut obeys).trans (Nat.zero_add _)
    rw [all, returned_readAll, size_joined_filter (!·.code.isError)]
    simp only [Bool.not_not]
    rfl
  refine ⟨count, ?_⟩
  have none := joined_filter_eq_empty_iff (fun m : Move => m.code.isError) (·.given) steps
  rw [← none, ← ByteArray.size_eq_zero_iff]
  unfold withheld at count
  omega

theorem totalOut_eq_returned_mending :
    let bufs : List ByteArray := .replicate 5 ⟨#[0, 0]⟩
    let steps := mending.readAllMoves Blocks.decompressor bufs
    let (answers, r) := mending.readAll Blocks.decompressor bufs
    Blocks.decompressor.Obeys ∧
      steps.map (·.code) = [1, 0, ErrorNumber.corruption.code, 0] ∧
      returned answers = ⟨#[5, 6, 7]⟩ ∧ r.totalOut = (returned answers).size := by
  intro bufs steps
  obtain ⟨-, right⟩ := totalOut_eq_returned_iff Blocks.decompressor Blocks.decompressor_obeys
    mending.source 0 bufs
  exact ⟨Blocks.decompressor_obeys, by decide +kernel, by decide +kernel,
    right.mpr (by decide +kernel)⟩

/-- A block of one byte and then a length that is none. -/
def spoiled : DecompressReader Nat := { source := .ofChunks [⟨#[1, 5, 200]⟩], session := 0 }

/-- The codec produces a byte and fails, and the byte is counted and not returned. -/
theorem totalOut_ne_returned_spoiled :
    let (answers, r) := spoiled.readAll Blocks.decompressor [⟨#[0, 0]⟩]
    Blocks.decompressor.Obeys ∧ r.totalOut = 1 ∧ (returned answers).size = 0 :=
  ⟨Blocks.decompressor_obeys, by decide +kernel, by decide +kernel⟩

end DecompressReader

end Sluice
