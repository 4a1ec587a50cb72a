import Sluice.Proofs.Codec.Packing
import Sluice.Proofs.Stream.Reads
import Sluice.Proofs.Stream.WriterCalls

namespace Sluice

variable {σ τ : Type}

namespace CompressWriter

variable {codec : Compressor σ} {fresh : σ} {budget : Nat} {w w' : CompressWriter σ}
  {ms : List Move} {closing : Bool} {fed out : ByteArray}

/-- Fine steps that do not finish go on with a run of the codec. -/
theorem Trail.streams (obeys : codec.Obeys) (t : Trail codec w ms w')
    (fine : ∀ m ∈ ms, m.Fine ∧ m.mode ≠ .finish)
    (run : codec.Streams fresh false fed out w.session) :
    codec.Streams fresh false (fed ++ joined (ms.map (·.taken)))
      (out ++ joined (ms.map (·.given))) w'.session := by
  induction t generalizing fed out with
  | refl w => simpa using run
  | @step w w' ms input mode inside idle rest ih =>
    obtain ⟨⟨code, -⟩, goes⟩ := fine _ List.mem_cons_self
    have next := run.step input (.whole w.staging) mode inside (OutWindow.whole_inside _) goes
      idle code
    rw [List.map_cons, joined_cons, List.map_cons, joined_cons, ← ByteArray.append_assoc,
      ← ByteArray.append_assoc]
    refine ih (fun m hm => fine m (List.mem_cons_of_mem _ hm)) ?_
    rw [(stepped obeys inside).session]
    exact next
  | flushSink rest ih => exact ih fine run

/-- Fine steps that finish close the run, if only the last of them left nothing pending. -/
theorem Trail.closes (obeys : codec.Obeys) (t : Trail codec w ms w')
    (fine : ∀ m ∈ ms, m.Fine ∧ m.mode = .finish) {before : List Move} {last : Move}
    (split : ms = before ++ [last]) (done : last.code = 0) (pending : ∀ m ∈ before, m.code ≠ 0)
    (run : codec.Streams fresh closing fed out w.session) :
    codec.Closes fresh fed (out ++ joined (ms.map (·.given))) := by
  induction t generalizing closing out before with
  | refl w => simp at split
  | @step w w' ms input mode inside idle rest ih =>
    obtain ⟨⟨code, -⟩, rfl⟩ := fine _ List.mem_cons_self
    have empty : input.left = 0 := idle.resolve_left nofun
    have space := OutWindow.whole_inside w.staging
    cases before with
    | nil =>
      cases split
      simp only [List.map_cons, List.map_nil, joined_cons, joined_nil, ByteArray.append_empty]
      exact .finish run input (.whole w.staging) inside space empty done
    | cons m before =>
      cases split
      have next := run.finish input (.whole w.staging) inside space empty code
        (pending _ List.mem_cons_self)
      have session : (w.step codec input .finish).value.writer.session = _ :=
        (stepped obeys inside).session
      rw [List.map_cons, joined_cons, ← ByteArray.append_assoc]
      exact ih (fun m hm => fine m (List.mem_cons_of_mem _ hm)) rfl
        (fun m hm => pending m (List.mem_cons_of_mem _ hm)) (session ▸ next)
  | flushSink rest ih => exact ih fine split pending run

theorem serve_ok (obeys : codec.Obeys) {c : Call} {x : Served}
    (h : w.serve codec budget c = some (x, w')) (ok : x.answer.isOk = true) :
    (∀ m ∈ x.moves, m.Fine ∧ m.mode ≠ .finish) ∧ joined (x.moves.map (·.taken)) = c.bytes := by
  cases performed obeys (.call c) h with
  | @write buf ms result w' feeding =>
    cases result with
    | error f => cases ok
    | ok => exact feeding.all
  | @writeAll buf ms result w' feeding =>
    cases result with
    | error f => cases ok
    | ok => exact feeding.all
  | @flush ms p draining =>
    cases hs : (settled p).1 with
    | error f =>
      rw [hs] at ok
      cases ok
    | ok =>
      refine ⟨fun m hm => ⟨draining.fine (settled_ok hs).1 m hm, ?_⟩, draining.joined_taken⟩
      rw [(draining.mode m hm).1]
      nofun

/-- A run of calls that all succeed is a run of the codec over the bytes they brought. -/
theorem serveAll_ok (obeys : codec.Obeys) {cs : List Call} {log : List Served}
    (h : w.serveAll codec budget cs = some (log, w')) (ok : ∀ x ∈ log, x.answer.isOk = true) :
    (∀ m ∈ log.flatMap (·.moves), m.Fine ∧ m.mode ≠ .finish) ∧
      joined ((log.flatMap (·.moves)).map (·.taken)) = joined (cs.map Call.bytes) := by
  induction cs generalizing w log with
  | nil =>
    cases h
    exact ⟨nofun, rfl⟩
  | cons c cs ih =>
    obtain ⟨x, w₁, xs, hx, hxs, rfl⟩ := serveAll_cons h
    obtain ⟨fine, taken⟩ := serve_ok obeys hx (ok x List.mem_cons_self)
    obtain ⟨others, rest⟩ := ih hxs fun y hy => ok y (List.mem_cons_of_mem _ hy)
    constructor
    · intro m hm
      rw [List.flatMap_cons] at hm
      rcases List.mem_append.mp hm with first | later
      · exact fine m first
      · exact others m later
    · rw [List.flatMap_cons, List.map_append, joined_append, taken, rest]
      rfl

/-- A run of calls that all succeed and a closing that succeeds put a stream into the sink that
the codec closed over the bytes of all calls. -/
theorem closes (obeys : codec.Obeys) {cs : List Call} {log : List Served}
    (h : w.serveAll codec budget cs = some (log, w')) (all_ok : ∀ x ∈ log, x.answer.isOk = true)
    {r : Logged (Except Failure Unit × CompressWriter σ)}
    (closed : w'.finish codec budget = some r) (ok : r.value.1 = .ok ()) :
    ∃ bytes, codec.Closes w.session (joined (cs.map Call.bytes)) bytes ∧
      r.value.2.sink.accepted = w.sink.accepted ++ bytes := by
  obtain ⟨fine, taken⟩ := serveAll_ok obeys h all_ok
  have trail := trail_serveAll obeys h
  obtain ⟨d, hd, hv⟩ := finish_value closed
  have draining := draining_drain obeys hd
  rw [hv] at ok ⊢
  obtain ⟨drained, -⟩ := settled_ok ok
  have run := trail.streams obeys fine .fresh
  rw [taken, ByteArray.empty_append, ByteArray.empty_append] at run
  obtain ⟨before, last, split, done, pending⟩ := draining.last drained
  have ending := draining.trail.closes obeys
    (fun m hm => ⟨draining.fine drained m hm, (draining.mode m hm).1⟩) split done pending run
  refine ⟨_, ending, ?_⟩
  have whole := trail.trans draining.trail_settled
  have arrived : ∀ m ∈ log.flatMap (·.moves) ++ w'.drainMoves codec budget .finish,
      m.arrived = m.given := by
    intro m hm
    refine (whole.accounted m hm).1 ?_
    rcases List.mem_append.mp hm with first | later
    · exact (fine m first).1.2
    · exact (draining.fine drained m later).2
  rw [whole.accepted obeys, List.map_congr_left arrived, List.map_append, joined_append]

end CompressWriter

namespace DecompressReader

variable {codec : Decompressor τ} {fresh : τ} {stream : Frames}

theorem reading_new (decodes : codec.Decodes fresh stream) {chunks : List ByteArray}
    (cut : joined chunks = stream.bytes) :
    Reading codec fresh stream stream.bytes.size { source := .ofChunks chunks, session := fresh } 0
      .empty :=
  .start decodes (cut.trans ByteArray.extract_zero_size.symm)

theorem length_le_size_joined {pieces : List ByteArray} (h : ∀ p ∈ pieces, p ≠ .empty) :
    pieces.length ≤ (joined pieces).size := by
  induction pieces with
  | nil => exact Nat.zero_le _
  | cons p ps ih =>
    have rest := ih fun q hq => h q (List.mem_cons_of_mem _ hq)
    have head : p.size ≠ 0 := fun zero =>
      h p List.mem_cons_self (ByteArray.size_eq_zero_iff.mp zero)
    rw [List.length_cons, joined_cons, ByteArray.size_append]
    omega

end DecompressReader

open CompressWriter DecompressReader

/-- If all calls on a new writer and its closing succeed, reading what its sink accepted gives
back the data of the calls: each read succeeds; the pieces read are the data in order; a read
answers with nothing exactly if all of it was read before, which happens at the latest after as
many reads as there are bytes; and then the reader stands at the end, between frames. -/
theorem adapters_roundTrip (compressor : Compressor σ) (s : σ) (decompressor : Decompressor τ)
    (d : τ) (fit : RoundTrips compressor s decompressor d) (sink : Sink)
    (new : sink.accepted = .empty) (outputChunk budget : Nat) (calls : List Call)
    (log : List Served) (w : CompressWriter σ)
    (served : (create sink s outputChunk).serveAll compressor budget calls = some (log, w))
    (all_ok : ∀ x ∈ log, x.answer.isOk = true)
    (r : Logged (Except Failure Unit × CompressWriter σ))
    (closed : w.finish compressor budget = some r) (ok : r.value.1 = .ok ())
    (chunks : List ByteArray) (cut : joined chunks = r.value.2.sink.accepted)
    (bufs : List ByteArray) (room : ∀ buf ∈ bufs, buf ≠ .empty) :
    let data := joined (calls.map Call.bytes)
    ∃ pieces reader,
      readAll decompressor { source := .ofChunks chunks, session := d } bufs =
          (pieces.map .ok, reader) ∧
        (∃ rest, data = joined pieces ++ rest) ∧
        (∀ before piece after, pieces = before ++ piece :: after →
          (piece = .empty ↔ joined before = data)) ∧
        (data.size < bufs.length → .empty ∈ pieces) ∧
        (.empty ∈ pieces → joined pieces = data ∧ reader.atFrameBoundary = true ∧
          reader.totalOut = data.size ∧ reader.totalIn = r.value.2.sink.accepted.size) := by
  intro data
  obtain ⟨bytes, closes, accepted⟩ := CompressWriter.closes fit.compressor_obeys served all_ok
    closed ok
  obtain ⟨content, FrameEnd, decodes, whole, ends⟩ := fit.decodes _ _ closes
  have accepted : r.value.2.sink.accepted = bytes := by
    rw [accepted]
    change sink.accepted ++ bytes = bytes
    rw [new, ByteArray.empty_append]
  rw [accepted] at cut ⊢
  have start := reading_new decodes cut
  obtain ⟨pieces, answers, length, ran⟩ := start.ran fit.decompressor_obeys decodes
    (Nat.le_refl _) (.inr ends) room
  change content bytes.size = data at whole
  have last := ran.last
  have silent := ran.silent
  obtain ⟨k, reading⟩ := ran.reading
  simp only [ByteArray.empty_append, whole] at last silent reading
  obtain ⟨rest, part⟩ := decodes.delivered_le fit.decompressor_obeys reading.run reading.le
    (Nat.le_refl _)
  change content bytes.size = _ at part
  rw [whole] at part
  refine ⟨pieces, _, Prod.ext answers rfl, ⟨rest, part⟩, silent, ?_, ?_⟩
  · intro enough
    by_cases found : .empty ∈ pieces
    · exact found
    · have full := length_le_size_joined fun p hp none => found (none ▸ hp)
      have sizes := congrArg ByteArray.size part
      rw [ByteArray.size_append] at sizes
      omega
  · intro silent
    obtain ⟨final, all⟩ := last silent
    refine ⟨all, ?_, final.totalOut, final.totalIn⟩
    have pending := final.pending.mpr ⟨.inr ends, whole.symm⟩
    simp [atFrameBoundary, pending]

/-- A sink that takes a single byte, is interrupted once, and then takes two bytes at a time. -/
def stuttering : Sink := { plan := [.accept 1, .fail ⟨.interrupted, "signal"⟩], steady := 2 }

/-- Blocks of two bytes, written with a flush between, cut into chunks of one, three and four
bytes, and read through small buffers. -/
theorem adapters_roundTrip_stuttering :
    ∃ log w r pieces reader,
      (create stuttering {} 0).serveAll (Blocks.tellingCompressor 2) 8
          [.write ⟨#[1, 2, 3]⟩, .flush, .writeAll ⟨#[4]⟩] = some (log, w) ∧
        (∀ x ∈ log, x.answer.isOk = true) ∧
        w.finish (Blocks.tellingCompressor 2) 8 = some r ∧ r.value.1 = .ok () ∧
        joined [⟨#[2]⟩, ⟨#[1, 2, 1]⟩, ⟨#[3, 1, 4, 0]⟩] = r.value.2.sink.accepted ∧
        readAll Blocks.decompressor
            { source := .ofChunks [⟨#[2]⟩, ⟨#[1, 2, 1]⟩, ⟨#[3, 1, 4, 0]⟩], session := 0 }
            (.replicate 6 ⟨#[0, 0, 0]⟩) = (pieces.map .ok, reader) ∧
        joined pieces = ⟨#[1, 2, 3, 4]⟩ ∧ reader.atFrameBoundary = true := by
  have run : outcome (Blocks.tellingCompressor 2) 8 (create stuttering {} 0)
      [.write ⟨#[1, 2, 3]⟩, .flush, .writeAll ⟨#[4]⟩] =
        some (true, true, ⟨#[2, 1, 2, 1, 3, 1, 4, 0]⟩, ⟨#[2, 1, 2, 1, 3, 1, 4, 0]⟩) := by
    decide +kernel
  obtain ⟨log, w, r, served, all, closed, ok, accepted, -⟩ := outcome_eq_some run
  have all_ok : ∀ x ∈ log, x.answer.isOk = true := List.all_eq_true.mp all
  have cut : joined [⟨#[2]⟩, ⟨#[1, 2, 1]⟩, ⟨#[3, 1, 4, 0]⟩] = r.value.2.sink.accepted := by
    rw [accepted]
    rfl
  have room : ∀ buf ∈ List.replicate 6 (⟨#[0, 0, 0]⟩ : ByteArray), buf ≠ .empty := by decide
  obtain ⟨pieces, reader, reads, -, -, enough, ends⟩ := adapters_roundTrip _ {} _ 0
    (Blocks.roundTrips 2 (by decide) (by decide)) stuttering rfl 0 8 _ log w served all_ok r
    closed ok _ cut _ room
  obtain ⟨whole, boundary, -, -⟩ := ends (enough (by decide))
  exact ⟨log, w, r, pieces, reader, served, all_ok, closed, ok, cut, reads, whole, boundary⟩

end Sluice
