import Sluice.Proofs.Step

namespace Sluice

variable {σ : Type}

/-- A step to take over whatever cursors are held then. -/
inductive Stroke (σ : Type)
  | compress (codec : Compressor σ) (mode : EndMode)
  | decompress (codec : Decompressor σ)

namespace Stroke

def request : Stroke σ → (output input : Cursor) → StepRequest σ
  | compress codec mode, output, input => .compress codec output input mode
  | decompress codec, output, input => .decompress codec output input

def answer (k : Stroke σ) (s : σ) {size : Nat} (input : InWindow) (output : OutWindow size) :
    Answer σ size :=
  match k with
  | compress codec mode => codec.step s input output mode
  | decompress codec => codec.step s input output

/-- The codec keeps its contract, and writes through the free part of its output only. -/
def Obeys : Stroke σ → Prop
  | compress codec _ => codec.Obeys ∧ codec.FillsOnly
  | decompress codec => codec.Obeys ∧ codec.FillsOnly

def mode : Stroke σ → Option EndMode
  | compress _ mode => some mode
  | decompress _ => none

/-- The same step, by the codec that keeps a record of what it was shown. -/
def watched : Stroke σ → Stroke (σ × List Sight)
  | compress codec mode => .compress codec.watched mode
  | decompress codec => .decompress codec.watched

variable {k : Stroke σ} {s : σ} {output input : Cursor} {inRegion outRegion : ByteArray}

theorem answer_watched (k : Stroke σ) (s : σ) (seen : List Sight) {size : Nat} (input : InWindow)
    (output : OutWindow size) :
    k.watched.answer (s, seen) input output =
      let a := k.answer s input output
      ⟨a.code, (a.state, seen ++ [⟨input, size, output, k.mode⟩]), a.inPos, a.output⟩ := by
  cases k <;> rfl

theorem serve_request (hi : input.Resolves inRegion) (ho : output.Resolves outRegion) :
    ((k.request output input).serve s).value =
      let a := k.answer s (input.inWindow inRegion) (output.outWindow outRegion)
      ⟨⟨.ofCode a.code, ⟨a.inPos - input.start.toNat, a.output.pos - output.start.toNat⟩⟩, a.state,
        output.commit a.output⟩ := by
  cases k with
  | compress codec mode => exact stepOver_of_resolves hi ho
  | decompress codec => exact stepOver_of_resolves hi ho

theorem Obeys.answer (h : k.Obeys) {size : Nat} (s : σ) {input : InWindow}
    {output : OutWindow size} (hi : input.Inside) (ho : output.Inside) :
    (k.answer s input output).Within input output ∧
      output.Filled (k.answer s input output).output := by
  cases k with
  | compress codec mode => exact ⟨h.1 s input output mode hi ho, h.2 s input output mode⟩
  | decompress codec => exact ⟨h.1 s input output hi ho, h.2 s input output⟩

end Stroke

/-- A session between the two cursors that its caller holds. -/
structure Relay (σ : Type) where
  session : σ
  output : Cursor
  input : Cursor

namespace Relay

/-- What one step reported, and the bytes that it moved. -/
structure Pass where
  report : Report
  taken : ByteArray
  given : ByteArray

/-- What the codec consumes and produces in a step; nothing if it is not called. -/
def moved (x : Relay σ) (k : Stroke σ) : ByteArray × ByteArray :=
  match x.input.readable, x.output.writable with
  | some i, some ⟨_, o⟩ =>
    let a := k.answer x.session i o
    (a.taken i, a.given o)
  | _, _ => (.empty, .empty)

def step (x : Relay σ) (k : Stroke σ) : Pass × Relay σ :=
  let r := ((k.request x.output x.input).serve x.session).value
  let p := r.report.progress
  (⟨r.report, (x.moved k).1, (x.moved k).2⟩,
    ⟨r.state, r.output.advance (.ofNat p.produced), x.input.advance (.ofNat p.consumed)⟩)

def run (x : Relay σ) : List (Stroke σ) → List Pass × Relay σ
  | [] => ([], x)
  | k :: ks =>
    let (p, y) := x.step k
    let (ps, z) := y.run ks
    (p :: ps, z)

def watched (x : Relay σ) (seen : List Sight) : Relay (σ × List Sight) :=
  ⟨(x.session, seen), x.output, x.input⟩

def sight (x : Relay σ) (inRegion outRegion : ByteArray) (k : Stroke σ) : Sight :=
  ⟨x.input.inWindow inRegion, _, x.output.outWindow outRegion, k.mode⟩

def total (ps : List Pass) : Progress :=
  ps.foldr (fun p t =>
    ⟨p.report.progress.consumed + t.consumed, p.report.progress.produced + t.produced⟩) .zero

theorem total_append (ps qs : List Pass) :
    (total (ps ++ qs)).consumed = (total ps).consumed + (total qs).consumed ∧
      (total (ps ++ qs)).produced = (total ps).produced + (total qs).produced := by
  induction ps with
  | nil => exact ⟨(Nat.zero_add _).symm, (Nat.zero_add _).symm⟩
  | cons p ps ih =>
    refine ⟨?_, ?_⟩
    · change p.report.progress.consumed + (total (ps ++ qs)).consumed =
        p.report.progress.consumed + (total ps).consumed + _
      rw [ih.1, Nat.add_assoc]
    · change p.report.progress.produced + (total (ps ++ qs)).produced =
        p.report.progress.produced + (total ps).produced + _
      rw [ih.2, Nat.add_assoc]

/-- What `ps` moved between `x` and `y`, over an input region and an output region that became
`after`. -/
structure Carried (x : Relay σ) (inRegion outRegion : ByteArray) (ps : List Pass) (y : Relay σ)
    (after : ByteArray) : Prop where
  input : y.input.Resolves inRegion
  output : y.output.Resolves after
  size : after.size = outRegion.size
  stops : y.input.stop = x.input.stop ∧ y.output.stop = x.output.stop
  consumed : y.input.start.toNat = x.input.start.toNat + (total ps).consumed
  produced : y.output.start.toNat = x.output.start.toNat + (total ps).produced
  counts : ∀ p ∈ ps, p.report.progress = ⟨p.taken.size, p.given.size⟩
  taken : joined (ps.map (·.taken)) = inRegion.extract x.input.start.toNat y.input.start.toNat
  given : joined (ps.map (·.given)) = after.extract x.output.start.toNat y.output.start.toNat
  before : after.extract 0 x.output.start.toNat = outRegion.extract 0 x.output.start.toNat
  beyond : after.extract x.output.stop.toNat after.size =
    outRegion.extract x.output.stop.toNat outRegion.size

variable {x y z : Relay σ} {inRegion outRegion mid after : ByteArray} {ps qs : List Pass}
  {k : Stroke σ}

theorem Carried.refl (hi : x.input.Resolves inRegion) (ho : x.output.Resolves outRegion) :
    Carried x inRegion outRegion [] x outRegion := by
  refine ⟨hi, ho, rfl, ⟨rfl, rfl⟩, rfl, rfl, nofun, ?_, ?_, rfl, rfl⟩
  · exact (ByteArray.extract_eq_empty_iff.mpr (Nat.min_le_left _ _)).symm
  · exact (ByteArray.extract_eq_empty_iff.mpr (Nat.min_le_left _ _)).symm

theorem extract_of_agree {a b : ByteArray} {i j n : Nat} (h : a.extract 0 n = b.extract 0 n)
    (le : j ≤ n) : a.extract i j = b.extract i j := by
  have := congrArg (·.extract i j) h
  simp only [ByteArray.extract_extract, Nat.zero_add, Nat.min_eq_left le] at this
  exact this

theorem Carried.trans (first : Carried x inRegion outRegion ps y mid)
    (second : Carried y inRegion mid qs z after) :
    Carried x inRegion outRegion (ps ++ qs) z after := by
  obtain ⟨consumed, produced⟩ := total_append ps qs
  have in₁ := first.consumed
  have in₂ := second.consumed
  have out₁ := first.produced
  have out₂ := second.produced
  refine ⟨second.input, second.output, second.size.trans first.size, ?_, by omega, by omega, ?_,
    ?_, ?_, ?_, ?_⟩
  · exact ⟨second.stops.1.trans first.stops.1, second.stops.2.trans first.stops.2⟩
  · intro p hp
    rcases List.mem_append.mp hp with hp | hp
    · exact first.counts p hp
    · exact second.counts p hp
  · rw [List.map_append, joined_append, first.taken, second.taken,
      ← ByteArray.extract_eq_extract_append_extract]
    · omega
    · omega
  · -- What was produced first is out of reach of the later steps.
    have kept : mid.extract x.output.start.toNat y.output.start.toNat =
        after.extract x.output.start.toNat y.output.start.toNat :=
      (extract_of_agree second.before (Nat.le_refl _)).symm
    rw [List.map_append, joined_append, first.given, second.given, kept,
      ← ByteArray.extract_eq_extract_append_extract]
    · omega
    · omega
  · rw [extract_of_agree second.before (by omega), first.before]
  · have beyond := second.beyond
    rw [first.stops.2] at beyond
    rw [beyond, first.beyond]

theorem moved_eq (hi : x.input.Resolves inRegion) (ho : x.output.Resolves outRegion) :
    x.moved k =
      let i := x.input.inWindow inRegion
      let o := x.output.outWindow outRegion
      ((k.answer x.session i o).taken i, (k.answer x.session i o).given o) := by
  unfold moved Cursor.readable Cursor.writable
  rw [hi.resolve_eq, ho.resolve_eq]
  rfl

theorem step_eq (hi : x.input.Resolves inRegion) (ho : x.output.Resolves outRegion) :
    x.step k =
      let i := x.input.inWindow inRegion
      let o := x.output.outWindow outRegion
      let a := k.answer x.session i o
      let consumed := a.inPos - x.input.start.toNat
      let produced := a.output.pos - x.output.start.toNat
      (⟨⟨.ofCode a.code, ⟨consumed, produced⟩⟩, a.taken i, a.given o⟩,
        ⟨a.state, (x.output.commit a.output).advance (.ofNat produced),
          x.input.advance (.ofNat consumed)⟩) := by
  unfold step
  rw [Stroke.serve_request hi ho, moved_eq hi ho]

/-- The codec is called once, over what lies between the cursors. -/
theorem step_watched {seen : List Sight} (hi : x.input.Resolves inRegion)
    (ho : x.output.Resolves outRegion) :
    (x.watched seen).step k.watched =
      ((x.step k).1, (x.step k).2.watched (seen ++ [x.sight inRegion outRegion k])) := by
  have step := step_eq (x := x.watched seen) (k := k.watched) hi ho
  rw [step, step_eq hi ho]
  dsimp only [watched]
  rw [Stroke.answer_watched]
  rfl

theorem carried_step (hi : x.input.Resolves inRegion) (ho : x.output.Resolves outRegion)
    (obeys : k.Obeys) :
    ∃ after, Carried x inRegion outRegion [(x.step k).1] (x.step k).2 after := by
  obtain ⟨within, filled⟩ := obeys.answer x.session hi.pos_inWindow_le ho.pos_outWindow_le
  rw [step_eq hi ho]
  dsimp only
  generalize k.answer x.session (x.input.inWindow inRegion) (x.output.outWindow outRegion) = a
    at within filled ⊢
  have taken : _ = a.inPos - x.input.start.toNat := within.size_taken
  have given : _ = a.output.pos - x.output.start.toNat := within.size_given
  have in_le : x.input.start.toNat ≤ a.inPos := within.input_le
  have inPos_le : a.inPos ≤ x.input.stop.toNat :=
    Nat.le_trans within.inPos_le (Nat.le_of_eq hi.size_window)
  have out_le : x.output.start.toNat ≤ a.output.pos := within.output_le
  have outPos_le : a.output.pos ≤ x.output.stop.toNat :=
    Nat.le_trans within.outPos_le (Nat.le_of_eq ho.size_window)
  obtain ⟨input, inStart⟩ := hi.advance (Nat.sub_le_sub_right inPos_le _)
  obtain ⟨after, put, size, window, beyond⟩ := ho.commit a.output
  have committed : (x.output.commit a.output).Resolves after :=
    ⟨put, ho.start_le, size ▸ ho.stop_le⟩
  have left : a.output.pos - x.output.start.toNat ≤
      x.output.stop.toNat - x.output.start.toNat := Nat.sub_le_sub_right outPos_le _
  obtain ⟨output, outStart⟩ := committed.advance left
  -- Both cursors now start where the codec left its positions.
  have inHere := inStart.trans (Nat.add_sub_of_le in_le)
  have outHere := outStart.trans (Nat.add_sub_of_le out_le)
  have shown : ∀ {j}, j ≤ x.output.stop.toNat →
      after.extract x.output.start.toNat j = a.output.dst.extract x.output.start.toNat j := by
    intro j le
    rw [← window, ByteArray.extract_extract, Nat.zero_add, Nat.zero_add, Nat.min_eq_left le]
  refine ⟨after, input, output, size, ⟨rfl, rfl⟩, inStart, outStart, ?_, ?_, ?_, ?_, beyond⟩
  · intro p hp
    obtain rfl := List.mem_singleton.mp hp
    rw [taken, given]
  · rw [inHere]
    change a.taken (x.input.inWindow inRegion) ++ .empty = _
    rw [ByteArray.append_empty]
    change (inRegion.extract 0 x.input.stop.toNat).extract x.input.start.toNat a.inPos = _
    rw [ByteArray.extract_extract, Nat.zero_add, Nat.zero_add, Nat.min_eq_left inPos_le]
  · rw [outHere, shown outPos_le]
    change a.given (x.output.outWindow outRegion) ++ .empty = _
    rw [ByteArray.append_empty]
    rfl
  · have kept : a.output.dst.extract 0 x.output.start.toNat =
        (outRegion.extract 0 x.output.stop.toNat).extract 0 x.output.start.toNat :=
      filled.kept.2 ho.pos_outWindow_le
    rw [← window] at kept
    simpa only [ByteArray.extract_extract, Nat.zero_add, Nat.min_eq_left ho.start_le] using kept

theorem run_append (x : Relay σ) (first later : List (Stroke σ)) :
    x.run (first ++ later) = ((x.run first).1 ++ ((x.run first).2.run later).1,
      ((x.run first).2.run later).2) := by
  induction first generalizing x with
  | nil => rfl
  | cons k ks ih =>
    simp only [List.cons_append, run, ih]

theorem length_run (x : Relay σ) (ks : List (Stroke σ)) : (x.run ks).1.length = ks.length := by
  induction ks generalizing x with
  | nil => rfl
  | cons k ks ih => exact congrArg (· + 1) (ih _)

theorem carried_run (hi : x.input.Resolves inRegion) (ho : x.output.Resolves outRegion)
    {ks : List (Stroke σ)} (obeys : ∀ k ∈ ks, k.Obeys) :
    ∃ after, Carried x inRegion outRegion (x.run ks).1 (x.run ks).2 after := by
  induction ks generalizing x outRegion with
  | nil => exact ⟨outRegion, .refl hi ho⟩
  | cons k ks ih =>
    obtain ⟨mid, first⟩ := carried_step hi ho (obeys k List.mem_cons_self)
    obtain ⟨after, rest⟩ := ih first.input first.output fun k hk =>
      obeys k (List.mem_cons_of_mem _ hk)
    exact ⟨after, first.trans rest⟩

theorem run_watched (hi : x.input.Resolves inRegion) (ho : x.output.Resolves outRegion)
    {ks : List (Stroke σ)} (obeys : ∀ k ∈ ks, k.Obeys) (seen : List Sight) :
    ∃ saw, saw.length = ks.length ∧ (x.watched seen).run (ks.map .watched) =
      ((x.run ks).1, (x.run ks).2.watched (seen ++ saw)) := by
  induction ks generalizing x outRegion seen with
  | nil => exact ⟨[], rfl, by rw [List.append_nil]; rfl⟩
  | cons k ks ih =>
    obtain ⟨mid, first⟩ := carried_step hi ho (obeys k List.mem_cons_self)
    obtain ⟨saw, length, rest⟩ := ih first.input first.output
      (fun k hk => obeys k (List.mem_cons_of_mem _ hk)) (seen ++ [x.sight inRegion outRegion k])
    refine ⟨x.sight inRegion outRegion k :: saw, congrArg (· + 1) length, ?_⟩
    rw [List.append_assoc] at rest
    simp only [List.map_cons, run, step_watched hi ho, rest]
    rfl

/-- At every point of a run both cursors resolve, the input before its cursor was consumed once and
in order, and the output before its cursor holds what was produced. No later step reaches what lies
before the cursors, and none moves them back or past their ends. Up to there a codec that keeps a
record was called once a step, and the next step will be one call over what the cursors enclose. -/
theorem run_carries (x : Relay σ) (inRegion outRegion : ByteArray)
    (hi : x.input.Resolves inRegion) (ho : x.output.Resolves outRegion)
    (first later : List (Stroke σ)) (obeys : ∀ k ∈ first ++ later, k.Obeys) :
    let early := x.run first
    let late := x.run (first ++ later)
    early.1.length = first.length ∧ (∃ rest, late.1 = early.1 ++ rest) ∧
      early.2.input.start ≤ late.2.input.start ∧ early.2.output.start ≤ late.2.output.start ∧
      ∃ mid after, Carried x inRegion outRegion early.1 early.2 mid ∧
        Carried x inRegion outRegion late.1 late.2 after ∧
        after.extract 0 early.2.output.start.toNat = mid.extract 0 early.2.output.start.toNat ∧
        ∃ saw, saw.length = first.length ∧
          (x.watched []).run (first.map .watched) = (early.1, early.2.watched saw) ∧
          ∀ k, (early.2.watched saw).step k.watched =
            ((early.2.step k).1,
              (early.2.step k).2.watched (saw ++ [early.2.sight inRegion mid k])) := by
  rw [run_append]
  obtain ⟨mid, early⟩ := carried_run hi ho fun k hk => obeys k (List.mem_append_left _ hk)
  obtain ⟨after, late⟩ := carried_run early.input early.output fun k hk =>
    obeys k (List.mem_append_right _ hk)
  obtain ⟨saw, calls, watched⟩ :=
    run_watched hi ho (fun k hk => obeys k (List.mem_append_left _ hk)) []
  refine ⟨length_run x first, ⟨_, rfl⟩, ?_, ?_, mid, after, early, early.trans late, late.before,
    saw, calls, watched, fun k => step_watched early.input early.output⟩
  · rw [UInt64.le_iff_toNat_le, late.consumed]
    exact Nat.le_add_right _ _
  · rw [UInt64.le_iff_toNat_le, late.produced]
    exact Nat.le_add_right _ _

/-- A block, a length that is none, and a block again, between bytes that are left alone. -/
def interrupted : Relay Nat :=
  { session := 0
    input := ⟨some ⟨#[9, 3, 1, 2, 5, 200, 1, 7, 9]⟩, 1, 8⟩
    output := ⟨some ⟨#[9, 9, 9, 9, 9, 9, 9]⟩, 1, 6⟩ }

/-- The first step fails after it moved bytes, and the next goes on behind them. -/
theorem run_carries_interrupted :
    let stroke : Stroke Nat := .decompress Blocks.decompressor
    let early := interrupted.run [stroke]
    let late := interrupted.run ([stroke] ++ [stroke])
    stroke.Obeys ∧ late.1.map (·.report.code) = [ErrorNumber.corruption.code, 1] ∧
      (early.1.length = 1 ∧ early.2.output.start.toNat = 4) ∧
      (late.2.input.start.toNat = 8 ∧ late.2.output.start.toNat = 5) ∧
      (∃ after, late.2.output.region = some after ∧ after.extract 1 5 = ⟨#[1, 2, 5, 7]⟩) ∧
      ∃ saw, saw.length = 1 ∧
        (interrupted.watched []).run [stroke.watched] = (early.1, early.2.watched saw) := by
  intro stroke
  let inRegion : ByteArray := ⟨#[9, 3, 1, 2, 5, 200, 1, 7, 9]⟩
  let outRegion : ByteArray := ⟨#[9, 9, 9, 9, 9, 9, 9]⟩
  have obeys : stroke.Obeys :=
    ⟨Blocks.decompressor_obeys, fun _ _ _ => OutWindow.filled_fill _ _⟩
  have each : ∀ k ∈ [stroke] ++ [stroke], k.Obeys := by
    intro k hk
    rcases List.mem_append.mp hk with hk | hk <;> exact List.mem_singleton.mp hk ▸ obeys
  obtain ⟨length, -, -, -, mid, after, first, both, -, saw, calls, watched, -⟩ :=
    run_carries interrupted inRegion outRegion ⟨rfl, by decide, by decide⟩
      ⟨rfl, by decide, by decide⟩ [stroke] [stroke] each
  have three : (total (interrupted.run [stroke]).1).produced = 3 := by decide +kernel
  have seven : total (interrupted.run ([stroke] ++ [stroke])).1 = ⟨7, 4⟩ := by decide +kernel
  have given : joined ((interrupted.run ([stroke] ++ [stroke])).1.map (·.given)) =
      ⟨#[1, 2, 5, 7]⟩ := by decide +kernel
  have out := first.produced
  have consumed := both.consumed
  have produced := both.produced
  rw [three] at out
  rw [seven] at consumed produced
  refine ⟨obeys, by decide +kernel, ⟨length, out⟩, ⟨consumed, produced⟩,
    ⟨after, both.output.attached, ?_⟩, saw, calls, watched⟩
  rw [← given, both.given, produced]
  rfl

end Relay

end Sluice
