import Sluice.Proofs.Codec.Unpacking
import Sluice.Proofs.Cursor

namespace Sluice

variable {σ : Type}

section

variable {run : {size : Nat} → InWindow → OutWindow size → Answer σ size} {s : σ}
  {output input : Cursor} {inRegion outRegion : ByteArray}

theorem stepOver_of_resolves (hi : input.Resolves inRegion) (ho : output.Resolves outRegion) :
    (stepOver run s output input).value =
      let a := run (input.inWindow inRegion) (output.outWindow outRegion)
      ⟨⟨.ofCode a.code, ⟨a.inPos - input.start.toNat, a.output.pos - output.start.toNat⟩⟩, a.state,
        output.commit a.output⟩ := by
  have readable : input.readable = some (input.inWindow inRegion) := by
    unfold Cursor.readable
    rw [hi.resolve_eq]
    rfl
  have writable : output.writable = some ⟨_, output.outWindow outRegion⟩ := by
    unfold Cursor.writable
    rw [ho.resolve_eq]
    rfl
  rw [stepOver, readable, writable]
  rfl

theorem stepOver_of_unresolved
    (h : ¬∃ inRegion outRegion, input.Resolves inRegion ∧ output.Resolves outRegion) :
    (stepOver run s output input).value = ⟨.accessFailure, s, output⟩ := by
  have blind : input.readable = none ∨ output.writable = none := by
    unfold Cursor.readable Cursor.writable
    by_cases hi : ∃ inRegion, input.Resolves inRegion
    · obtain ⟨inRegion, hi⟩ := hi
      right
      rw [Cursor.resolve_eq_none fun ⟨outRegion, ho⟩ => h ⟨inRegion, outRegion, hi, ho⟩]
      rfl
    · left
      rw [Cursor.resolve_eq_none hi]
      rfl
  rw [stepOver]
  rcases blind with none | none
  · rw [none]
    rfl
  · rw [none]
    cases input.readable <;> rfl

end

/-- What a codec is shown in a call; no mode if it decompresses. -/
structure Sight where
  input : InWindow
  size : Nat
  output : OutWindow size
  mode : Option EndMode

/-- The same codec, keeping a record of what it was shown. -/
def Compressor.watched (codec : Compressor σ) : Compressor (σ × List Sight) where
  setParameter p id value :=
    let (code, s) := codec.setParameter p.1 id value
    (code, (s, p.2))
  step p input output mode :=
    let a := codec.step p.1 input output mode
    ⟨a.code, (a.state, p.2 ++ [⟨input, _, output, some mode⟩]), a.inPos, a.output⟩

def Decompressor.watched (codec : Decompressor σ) : Decompressor (σ × List Sight) where
  step p input output :=
    let a := codec.step p.1 input output
    ⟨a.code, (a.state, p.2 ++ [⟨input, _, output, none⟩]), a.inPos, a.output⟩

/-- The ways to ask for a step. -/
inductive StepRequest (σ : Type)
  | compress (codec : Compressor σ) (output input : Cursor) (mode : EndMode)
  | compressBounds (codec : Compressor σ) (output : ByteArray) (outStart outStop : Word)
    (input : ByteArray) (inStart inStop : Word) (mode : EndMode)
  | decompress (codec : Decompressor σ) (output input : Cursor)
  | decompressBounds (codec : Decompressor σ) (output : ByteArray) (outStart outStop : Word)
    (input : ByteArray) (inStart inStop : Word)

namespace StepRequest

def serve (s : σ) : StepRequest σ → Logged (Stepped σ)
  | compress codec output input mode => codec.compress s output input mode
  | compressBounds codec output outStart outStop input inStart inStop mode =>
    codec.compressBounds s output outStart outStop input inStart inStop mode
  | decompress codec output input => codec.decompress s output input
  | decompressBounds codec output outStart outStop input inStart inStop =>
    codec.decompressBounds s output outStart outStop input inStart inStop

def output : StepRequest σ → Cursor
  | compress _ output _ _ | decompress _ output _ => output
  | compressBounds _ output start stop _ _ _ _ | decompressBounds _ output start stop _ _ _ =>
    ⟨some output, start, stop⟩

def input : StepRequest σ → Cursor
  | compress _ _ input _ | decompress _ _ input => input
  | compressBounds _ _ _ _ input start stop _ | decompressBounds _ _ _ _ input start stop =>
    ⟨some input, start, stop⟩

def mode : StepRequest σ → Option EndMode
  | compress _ _ _ mode | compressBounds _ _ _ _ _ _ _ mode => some mode
  | decompress .. | decompressBounds .. => none

def answer (r : StepRequest σ) (s : σ) {size : Nat} (input : InWindow) (output : OutWindow size) :
    Answer σ size :=
  match r with
  | compress codec _ _ mode | compressBounds codec _ _ _ _ _ _ mode =>
    codec.step s input output mode
  | decompress codec _ _ | decompressBounds codec _ _ _ _ _ _ => codec.step s input output

def watched : StepRequest σ → StepRequest (σ × List Sight)
  | compress codec output input mode => .compress codec.watched output input mode
  | compressBounds codec output outStart outStop input inStart inStop mode =>
    .compressBounds codec.watched output outStart outStop input inStart inStop mode
  | decompress codec output input => .decompress codec.watched output input
  | decompressBounds codec output outStart outStop input inStart inStop =>
    .decompressBounds codec.watched output outStart outStop input inStart inStop

variable {r : StepRequest σ} {inRegion outRegion : ByteArray}

theorem serve_eq (r : StepRequest σ) (s : σ) :
    r.serve s = stepOver (fun input output => r.answer s input output) s r.output r.input := by
  cases r <;> rfl

theorem output_watched (r : StepRequest σ) : r.watched.output = r.output := by
  cases r <;> rfl

theorem input_watched (r : StepRequest σ) : r.watched.input = r.input := by
  cases r <;> rfl

theorem answer_watched (r : StepRequest σ) (s : σ) (seen : List Sight) {size : Nat}
    (input : InWindow) (output : OutWindow size) :
    r.watched.answer (s, seen) input output =
      let a := r.answer s input output
      ⟨a.code, (a.state, seen ++ [⟨input, size, output, r.mode⟩]), a.inPos, a.output⟩ := by
  cases r <;> rfl

theorem serve_watched (r : StepRequest σ) (s : σ) (seen : List Sight) :
    r.watched.serve (s, seen) =
      stepOver (fun input output => r.watched.answer (s, seen) input output) (s, seen) r.output
        r.input := by
  rw [serve_eq, input_watched, output_watched]

/-- What a step makes of the codec's answer over the windows of its cursors. -/
structure Settled (r : StepRequest σ) (outRegion : ByteArray) (i : InWindow) {size : Nat}
    (o : OutWindow size) (a : Answer σ size) (x : Stepped σ) : Prop where
  state : x.state = a.state
  code : x.report.code = a.code
  /-- Both counters are how far the positions moved, whatever the codec's status. -/
  progress : a.Within i o →
    r.input.start.toNat + x.report.progress.consumed = a.inPos ∧
      r.output.start.toNat + x.report.progress.produced = a.output.pos ∧
      x.report.progress.consumed ≤ r.input.stop.toNat - r.input.start.toNat ∧
      x.report.progress.produced ≤ r.output.stop.toNat - r.output.start.toNat
  /-- The region is as the codec left it up to `stop`, and as it was from there on. -/
  region : ∃ after, x.output.region = some after ∧ after.size = outRegion.size ∧
    after.extract 0 r.output.stop.toNat = a.output.dst ∧
    after.extract r.output.stop.toNat after.size =
      outRegion.extract r.output.stop.toNat outRegion.size ∧
    (o.Filled a.output →
      after.extract 0 r.output.start.toNat = outRegion.extract 0 r.output.start.toNat)

theorem settled (hi : r.input.Resolves inRegion) (ho : r.output.Resolves outRegion)
    (a : Answer σ (outRegion.extract 0 r.output.stop.toNat).size) :
    r.Settled outRegion (r.input.inWindow inRegion) (r.output.outWindow outRegion) a
      ⟨⟨.ofCode a.code, ⟨a.inPos - r.input.start.toNat, a.output.pos - r.output.start.toNat⟩⟩,
        a.state, r.output.commit a.output⟩ := by
  refine ⟨rfl, Status.code_ofCode _, ?_, ?_⟩
  · rintro ⟨input_le, inPos_le, output_le, outPos_le⟩
    change r.input.start.toNat ≤ _ at input_le
    change r.output.start.toNat ≤ _ at output_le
    have input := hi.size_window
    have output := ho.size_window
    change _ ≤ (inRegion.extract 0 r.input.stop.toNat).size at inPos_le
    dsimp only
    omega
  · obtain ⟨after, put, size, window, rest⟩ := ho.commit a.output
    refine ⟨after, put, size, window, rest, fun filled => ?_⟩
    have ordered := ho.start_le
    have kept : a.output.dst.extract 0 r.output.start.toNat =
        (outRegion.extract 0 r.output.stop.toNat).extract 0 r.output.start.toNat :=
      filled.kept.2 ho.pos_outWindow_le
    have near : min (0 + r.output.start.toNat) r.output.stop.toNat = r.output.start.toNat := by
      omega
    rw [← window, ByteArray.extract_extract, ByteArray.extract_extract, near] at kept
    exact kept

/-- What a refused step leaves: an error by either view, and everything else as it was. -/
structure Refused (r : StepRequest σ) (s : σ) (x : Stepped σ) : Prop where
  state : x.state = s
  output : x.output = r.output
  status : x.report.status = .bufferAccessFailure
  isError : x.report.status.isError = true
  isError_code : x.report.code.isError = true
  progress : x.report.progress = .zero

theorem isError_accessFailure : Report.accessFailure.code.isError = true := by decide

/-- If both cursors resolve, the codec is called once, over their windows, and the step is what it
answered; if one does not, the codec is not called and nothing changes. The bounds of the cursors
stay as they are, and input is only read. -/
theorem serve_contract (r : StepRequest σ) (s : σ) (seen : List Sight) :
    let x := (r.serve s).value
    let watched := (r.watched.serve (s, seen)).value
    x.output.start = r.output.start ∧ x.output.stop = r.output.stop ∧
      (∀ inRegion outRegion, r.input.Resolves inRegion → r.output.Resolves outRegion →
        let i := r.input.inWindow inRegion
        let o := r.output.outWindow outRegion
        watched = ⟨x.report, (x.state, seen ++ [⟨i, _, o, r.mode⟩]), x.output⟩ ∧
          r.Settled outRegion i o (r.answer s i o) x) ∧
      ((¬∃ inRegion outRegion, r.input.Resolves inRegion ∧ r.output.Resolves outRegion) →
        watched = ⟨x.report, (x.state, seen), x.output⟩ ∧ r.Refused s x) := by
  intro x watched
  have hx : x = (stepOver (fun i o => r.answer s i o) s r.output r.input).value :=
    congrArg Logged.value (r.serve_eq s)
  have hw : watched = (stepOver (fun i o => r.watched.answer (s, seen) i o) (s, seen) r.output
      r.input).value := congrArg Logged.value (r.serve_watched s seen)
  by_cases resolve : ∃ inRegion outRegion,
      r.input.Resolves inRegion ∧ r.output.Resolves outRegion
  · have bounds : x.output.start = r.output.start ∧ x.output.stop = r.output.stop := by
      obtain ⟨inRegion, outRegion, hi, ho⟩ := resolve
      rw [hx, stepOver_of_resolves hi ho]
      exact ⟨rfl, rfl⟩
    refine ⟨bounds.1, bounds.2, ?_, fun blind => absurd resolve blind⟩
    intro inRegion outRegion hi ho i o
    rw [hx, hw, stepOver_of_resolves hi ho, stepOver_of_resolves hi ho, answer_watched]
    exact ⟨rfl, settled hi ho _⟩
  · rw [hx, hw, stepOver_of_unresolved resolve, stepOver_of_unresolved resolve]
    refine ⟨rfl, rfl, fun inRegion outRegion hi ho => ?_, fun _ => ⟨rfl, ?_⟩⟩
    · exact absurd ⟨inRegion, outRegion, hi, ho⟩ resolve
    · exact ⟨rfl, rfl, rfl, rfl, isError_accessFailure, rfl⟩

def corrupt : StepRequest Nat :=
  .decompressBounds Blocks.decompressor ⟨#[9, 9, 9, 9, 9]⟩ 1 4 ⟨#[7, 7, 2, 1, 5, 200, 7]⟩ 2 6

/-- The step fails after it moved bytes, and what it moved is reported. -/
theorem serve_contract_corrupt :
    let x := (corrupt.serve 0).value
    x.report.code = ErrorNumber.corruption.code ∧ x.report.progress = ⟨4, 2⟩ ∧
      ∃ after, x.output.region = some after ∧ after.size = 5 ∧
        after.extract 0 1 = ⟨#[9]⟩ ∧ after.extract 4 after.size = ⟨#[9]⟩ := by
  intro x
  let inRegion : ByteArray := ⟨#[7, 7, 2, 1, 5, 200, 7]⟩
  let outRegion : ByteArray := ⟨#[9, 9, 9, 9, 9]⟩
  have hi : corrupt.input.Resolves inRegion := ⟨rfl, by decide, by decide⟩
  have ho : corrupt.output.Resolves outRegion := ⟨rfl, by decide, by decide⟩
  obtain ⟨-, -, resolved, -⟩ := serve_contract corrupt 0 []
  obtain ⟨-, settled⟩ := resolved inRegion outRegion hi ho
  obtain ⟨after, region, size, -, rest, before⟩ := settled.region
  have within := Blocks.decompressor_obeys 0 (corrupt.input.inWindow inRegion)
    (corrupt.output.outWindow outRegion) hi.pos_inWindow_le ho.pos_outWindow_le
  obtain ⟨consumed, produced, -, -⟩ := settled.progress within
  have moved : (corrupt.answer 0 (corrupt.input.inWindow inRegion)
        (corrupt.output.outWindow outRegion)).inPos = 6 ∧
      (corrupt.answer 0 (corrupt.input.inWindow inRegion)
        (corrupt.output.outWindow outRegion)).output.pos = 3 := by decide +kernel
  rw [moved.1] at consumed
  rw [moved.2] at produced
  change 2 + x.report.progress.consumed = 6 at consumed
  change 1 + x.report.progress.produced = 3 at produced
  refine ⟨settled.code.trans (by decide +kernel), ?_, after, region, size, ?_, rest⟩
  · generalize x.report.progress = progress at consumed produced ⊢
    obtain ⟨i, o⟩ := progress
    simp only at consumed produced
    simp only [Progress.mk.injEq]
    omega
  · exact before (OutWindow.filled_fill _ _)

end StepRequest

end Sluice
