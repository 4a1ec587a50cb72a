import Sluice.Frame.Session
import Sluice.Proofs.Step

namespace Sluice

variable {σ τ : Type} {size : Nat}

/-- The free part of a window, as a call over it alone left it, put back. -/
def OutWindow.putBack (w : OutWindow size) (part : OutWindow w.unfilled.size) :
    OutWindow size where
  dst := w.dst.extract 0 w.pos ++ part.dst
  size_dst := by
    have whole := w.size_dst
    rw [ByteArray.size_append, part.size_dst, OutWindow.unfilled, ByteArray.size_extract,
      ByteArray.size_extract]
    omega
  pos := w.pos + part.pos

def overBuffers (call : {size : Nat} → InWindow → OutWindow size → Answer σ size)
    (input : InWindow) (output : OutWindow size) : Answer σ size :=
  let a := call ⟨input.unread, 0⟩ (.whole output.unfilled)
  ⟨a.code, a.state, input.pos + a.inPos, output.putBack a.output⟩

def Compressor.overBuffers (native : Compressor σ) : Compressor σ where
  setParameter := native.setParameter
  step s input output mode :=
    Sluice.overBuffers (fun i o => native.step s i o mode) input output

def Decompressor.overBuffers (native : Decompressor σ) : Decompressor σ where
  step s input output := Sluice.overBuffers (fun i o => native.step s i o) input output

namespace OutWindow

theorem size_unfilled (w : OutWindow size) : w.unfilled.size = w.room := by
  have whole := w.size_dst
  rw [unfilled, room, ByteArray.size_extract]
  omega

theorem eq_of_dst {w w' : OutWindow size} (dst : w.dst = w'.dst) (pos : w.pos = w'.pos) :
    w = w' := by
  cases w
  cases w'
  cases dst
  cases pos
  rfl

theorem overlay_unfilled {w : OutWindow size} (inside : w.Inside) (bytes : ByteArray) :
    w.dst.extract 0 w.pos ++ overlay w.unfilled 0 bytes = overlay w.dst w.pos bytes := by
  have free : w.unfilled.size = size - w.pos := w.size_unfilled
  have front : w.unfilled.extract 0 0 = .empty := ByteArray.extract_eq_empty_iff.mpr (by omega)
  have stop : min (w.pos + (size - w.pos)) size = size := by
    unfold Inside at inside
    omega
  unfold overlay
  dsimp only
  rw [free, w.size_dst, Nat.sub_zero, Nat.zero_add, front, ByteArray.empty_append,
    ByteArray.append_assoc, unfilled, ByteArray.extract_extract, stop]

theorem dst_fill {w : OutWindow size} (inside : w.Inside) (bytes : ByteArray) :
    (w.fill bytes).dst = overlay w.dst w.pos bytes := by
  unfold fill
  split
  · rename_i none
    have le : w.pos ≤ w.dst.size := Nat.le_trans inside (Nat.le_of_eq w.size_dst.symm)
    have nothing : ByteArray.empty.extract 0 (w.dst.size - w.pos) = .empty :=
      ByteArray.extract_eq_empty_iff.mpr (Nat.min_le_right _ _)
    unfold overlay
    rw [isEmpty_iff.mp none]
    dsimp only
    rw [nothing, ByteArray.append_empty, ByteArray.size_empty, Nat.add_zero,
      extract_append_rest le]
  · unfold Inside at inside
    rw [dif_pos inside]

theorem fill_of_outside {w : OutWindow size} (outside : ¬w.Inside) (bytes : ByteArray) :
    w.fill bytes = w := by
  unfold fill
  split
  · rfl
  · exact dif_neg outside

/-- Behind the end there is nothing to put back. -/
theorem dst_putBack_of_outside {w : OutWindow size} (outside : ¬w.Inside)
    (part : OutWindow w.unfilled.size) : (w.putBack part).dst = w.dst := by
  unfold Inside at outside
  have none : part.dst = .empty := by
    apply ByteArray.size_eq_zero_iff.mp
    rw [part.size_dst, size_unfilled]
    unfold room
    omega
  change w.dst.extract 0 w.pos ++ part.dst = w.dst
  rw [none, ByteArray.append_empty]
  apply extract_of_size_le
  rw [w.size_dst]
  omega

theorem putBack_fill (w : OutWindow size) (bytes : ByteArray) :
    w.putBack ((OutWindow.whole w.unfilled).fill bytes) = w.fill bytes := by
  have free : (OutWindow.whole w.unfilled).room = w.room := w.size_unfilled
  have pos : (w.putBack ((OutWindow.whole w.unfilled).fill bytes)).pos =
      w.pos + min bytes.size w.room := by
    change w.pos + _ = _
    rw [pos_fill (whole_inside w.unfilled), free]
    exact congrArg _ (Nat.zero_add _)
  by_cases inside : w.Inside
  · apply eq_of_dst
    · change w.dst.extract 0 w.pos ++ _ = _
      rw [dst_fill (whole_inside w.unfilled), dst_fill inside]
      exact overlay_unfilled inside bytes
    · rw [pos, pos_fill inside]
  · rw [fill_of_outside inside]
    apply eq_of_dst
    · exact dst_putBack_of_outside inside _
    · have none : w.room = 0 := by
        unfold Inside at inside
        unfold room
        omega
      rw [pos, none, Nat.min_zero, Nat.add_zero]

end OutWindow

theorem overBuffers_over (run : ByteArray → (room : Nat) → Portion σ) (input : InWindow)
    (output : OutWindow size) :
    overBuffers (fun i o => (run i.unread o.room).over i o) input output =
      (run input.unread output.room).over input output := by
  have unread := InWindow.unread_whole input.unread
  have room : (OutWindow.whole output.unfilled).room = output.room := output.size_unfilled
  simp only [overBuffers, unread, room, Portion.over, Nat.zero_add, OutWindow.putBack_fill]

/-- A codec made of slices is one that is called over buffers. -/
theorem Compressor.overBuffers_ofSlices (setParameter : σ → (id value : Int32) → Word × σ)
    (run : σ → ByteArray → (room : Nat) → EndMode → Portion σ) :
    (ofSlices setParameter run).overBuffers = ofSlices setParameter run := by
  have step {size : Nat} (s : σ) (input : InWindow) (output : OutWindow size) (mode : EndMode) :=
    overBuffers_over (fun unread room => run s unread room mode) input output
  simp only [Compressor.overBuffers, ofSlices, step]

theorem Decompressor.overBuffers_ofSlices (run : σ → ByteArray → (room : Nat) → Portion σ) :
    (ofSlices run).overBuffers = ofSlices run := by
  have step {size : Nat} (s : σ) (input : InWindow) (output : OutWindow size) :=
    overBuffers_over (run s) input output
  simp only [Decompressor.overBuffers, ofSlices, step]

theorem Frame.compressor_overBuffers : compressor.overBuffers = compressor :=
  Compressor.overBuffers_ofSlices Encoder.setParameter Encoder.run

theorem Frame.decompressor_overBuffers : decompressor.overBuffers = decompressor :=
  Decompressor.overBuffers_ofSlices Decoder.run

/-- What a codec over buffers goes by: the bytes of the one and the size of the other. It keeps to
that size, and behind the bytes it produced it may leave anything. -/
structure Blinkered (call : {size : Nat} → InWindow → OutWindow size → Answer σ size) : Prop where
  inside : ∀ bytes region, (call ⟨bytes, 0⟩ (.whole region)).output.pos ≤ region.size
  alike : ∀ bytes region region', region'.size = region.size →
    let a := call ⟨bytes, 0⟩ (.whole region)
    let a' := call ⟨bytes, 0⟩ (.whole region')
    a'.code = a.code ∧ a'.state = a.state ∧ a'.inPos = a.inPos ∧
      a'.output.pos = a.output.pos ∧ a'.given (.whole region') = a.given (.whole region)

theorem given_fill_whole (region bytes : ByteArray) :
    ((OutWindow.whole region).fill bytes).dst.extract 0 ((OutWindow.whole region).fill bytes).pos =
      bytes.extract 0 region.size := by
  have start := OutWindow.whole_inside region
  have front : region.extract 0 0 = .empty :=
    ByteArray.extract_eq_empty_iff.mpr (Nat.min_le_left _ _)
  have size : (bytes.extract 0 region.size).size = min bytes.size region.size := by
    rw [ByteArray.size_extract, Nat.sub_zero, Nat.min_comm]
  have pos : ((OutWindow.whole region).fill bytes).pos = (bytes.extract 0 region.size).size := by
    rw [OutWindow.pos_fill start, size]
    exact Nat.zero_add _
  rw [OutWindow.dst_fill start, pos]
  change (overlay region 0 bytes).extract _ _ = _
  unfold overlay
  dsimp only
  rw [front, ByteArray.empty_append, Nat.sub_zero]
  exact ByteArray.extract_append_eq_left rfl

theorem blinkered_over (run : ByteArray → (room : Nat) → Portion σ) :
    Blinkered fun i o => (run i.unread o.room).over i o where
  inside := by
    intro bytes region
    change (OutWindow.fill _ _).pos ≤ region.size
    rw [OutWindow.pos_fill (OutWindow.whole_inside region)]
    have room : (OutWindow.whole region).room = region.size := rfl
    have start : (OutWindow.whole region).pos = 0 := rfl
    omega
  alike := by
    intro bytes region region' size a a'
    have room : (OutWindow.whole region').room = (OutWindow.whole region).room := size
    have first : a = (run (InWindow.unread ⟨bytes, 0⟩) (OutWindow.whole region).room).over
        ⟨bytes, 0⟩ (.whole region) := rfl
    have second : a' = (run (InWindow.unread ⟨bytes, 0⟩) (OutWindow.whole region').room).over
        ⟨bytes, 0⟩ (.whole region') := rfl
    rw [first, second, room]
    generalize run (InWindow.unread ⟨bytes, 0⟩) (OutWindow.whole region).room = p
    refine ⟨rfl, rfl, rfl, ?_, ?_⟩
    · change ((OutWindow.whole region').fill p.given).pos =
        ((OutWindow.whole region).fill p.given).pos
      rw [OutWindow.pos_fill (OutWindow.whole_inside region),
        OutWindow.pos_fill (OutWindow.whole_inside region'), room]
      rfl
    · have given := congrArg (p.given.extract 0) size
      exact (given_fill_whole region' p.given).trans
        (given.trans (given_fill_whole region p.given).symm)

namespace Cursor

def slice (c : Cursor) (region : ByteArray) : ByteArray :=
  region.extract c.start.toNat c.stop.toNat

variable {c : Cursor} {region : ByteArray}

theorem unread_inWindow (c : Cursor) (region : ByteArray) :
    (c.inWindow region).unread = c.slice region := by
  change (region.extract 0 c.stop.toNat).extract c.start.toNat
    (region.extract 0 c.stop.toNat).size = _
  have stop : min (0 + (region.extract 0 c.stop.toNat).size) c.stop.toNat =
      min c.stop.toNat region.size := by
    rw [ByteArray.size_extract]
    omega
  rw [ByteArray.extract_extract, stop, extract_min_size, Nat.zero_add]
  rfl

theorem unfilled_outWindow (c : Cursor) (region : ByteArray) :
    (c.outWindow region).unfilled = c.slice region :=
  c.unread_inWindow region

theorem Resolves.size_slice (h : c.Resolves region) :
    (c.slice region).size = c.stop.toNat - c.start.toNat := by
  have := h.stop_le
  rw [slice, ByteArray.size_extract]
  omega

/-- What became of a region that nothing was written to outside of the bounds of its cursor. -/
structure Confined (c : Cursor) (region : ByteArray) (c' : Cursor) (after : ByteArray) : Prop where
  attached : c'.region = some after
  start : c'.start = c.start
  stop : c'.stop = c.stop
  size : after.size = region.size
  before : after.extract 0 c.start.toNat = region.extract 0 c.start.toNat
  behind : after.extract c.stop.toNat after.size = region.extract c.stop.toNat region.size

theorem Resolves.splice (h : c.Resolves region) {bytes : ByteArray}
    (size : bytes.size = (c.slice region).size) :
    let after := region.extract 0 c.start.toNat ++ bytes ++
      region.extract c.stop.toNat region.size
    c.Confined region { c with region := some after } after ∧
      ∀ n ≤ bytes.size, after.extract c.start.toNat (c.start.toNat + n) = bytes.extract 0 n := by
  intro after
  have ordered := h.start_le
  have inside := h.stop_le
  have front : (region.extract 0 c.start.toNat).size = c.start.toNat := by
    rw [ByteArray.size_extract]
    omega
  have rest : (region.extract c.stop.toNat region.size).size = region.size - c.stop.toNat := by
    rw [ByteArray.size_extract, Nat.min_self]
  rw [h.size_slice] at size
  have upTo : (region.extract 0 c.start.toNat ++ bytes).size = c.stop.toNat := by
    rw [ByteArray.size_append, front, size]
    omega
  have whole : after.size = c.stop.toNat + (region.size - c.stop.toNat) := by
    rw [ByteArray.size_append, upTo, rest]
  refine ⟨⟨rfl, rfl, rfl, by omega, ?_, ?_⟩, ?_⟩
  · change (_ ++ bytes ++ _).extract 0 _ = _
    rw [ByteArray.append_assoc]
    exact ByteArray.extract_append_eq_left front.symm
  · rw [whole, extract_append_right upTo, ← rest]
    exact ByteArray.extract_zero_size
  · intro n le
    change (_ ++ bytes ++ _).extract _ _ = _
    rw [ByteArray.append_assoc, extract_append_right front]
    exact extract_append_of_le le

end Cursor

section

variable {call : {size : Nat} → InWindow → OutWindow size → Answer σ size}

/-- The buffers by other names, since the size of the answer depends on the second. -/
theorem overBuffers_of_eq (call : {size : Nat} → InWindow → OutWindow size → Answer σ size)
    {input : InWindow} {output : OutWindow size} {unread unfilled : ByteArray}
    (hi : input.unread = unread) (ho : output.unfilled = unfilled) :
    let a := call ⟨unread, 0⟩ (.whole unfilled)
    let x := overBuffers call input output
    x.code = a.code ∧ x.state = a.state ∧ x.inPos = input.pos + a.inPos ∧
      x.output.pos = output.pos + a.output.pos ∧
      x.output.dst = output.dst.extract 0 output.pos ++ a.output.dst := by
  subst hi ho
  exact ⟨rfl, rfl, rfl, rfl, rfl⟩

/-- A step with a codec over buffers is the codec's answer over the two slices. What it made of the
output slice takes the slice's place. -/
theorem stepOver_overBuffers {s : σ} {output input : Cursor} {inRegion outRegion : ByteArray}
    (hi : input.Resolves inRegion) (ho : output.Resolves outRegion) :
    (stepOver (overBuffers call) s output input).value =
      let a := call ⟨input.slice inRegion, 0⟩ (.whole (output.slice outRegion))
      ⟨⟨.ofCode a.code, ⟨a.inPos, a.output.pos⟩⟩, a.state,
        { output with region := some (outRegion.extract 0 output.start.toNat ++ a.output.dst ++
          outRegion.extract output.stop.toNat outRegion.size) }⟩ := by
  obtain ⟨code, state, inPos, pos, dst⟩ := overBuffers_of_eq call
    (input.unread_inWindow inRegion) (output.unfilled_outWindow outRegion)
  have before : (output.outWindow outRegion).dst.extract 0 (output.outWindow outRegion).pos =
      outRegion.extract 0 output.start.toNat := by
    have near : min (0 + output.start.toNat) output.stop.toNat = output.start.toNat := by
      have := ho.start_le
      omega
    change (outRegion.extract 0 output.stop.toNat).extract 0 output.start.toNat = _
    rw [ByteArray.extract_extract, near]
  have consumed : ∀ n, (input.inWindow inRegion).pos + n - input.start.toNat = n :=
    Nat.add_sub_cancel_left input.start.toNat
  have produced : ∀ n, (output.outWindow outRegion).pos + n - output.start.toNat = n :=
    Nat.add_sub_cancel_left output.start.toNat
  rw [stepOver_of_resolves hi ho]
  simp only [Cursor.commit, ho.attached, Option.map_some, code, state, inPos, pos, dst, before,
    consumed, produced]

/-- Two steps that cannot be told from each other by what they report, leave and produce, and that
wrote nothing outside of the bounds of their outputs. -/
structure AlikeWithin (output : Cursor) (outRegion : ByteArray) (output' : Cursor)
    (outRegion' : ByteArray) (x x' : Stepped σ) : Prop where
  report : x'.report = x.report
  state : x'.state = x.state
  regions : ∃ after after', output.Confined outRegion x.output after ∧
    output'.Confined outRegion' x'.output after' ∧
    let n := x.report.progress.produced
    n ≤ output.stop.toNat - output.start.toNat ∧
      after'.extract output'.start.toNat (output'.start.toNat + n) =
        after.extract output.start.toNat (output.start.toNat + n)

theorem alike_stepOver (blinkered : Blinkered call) (s : σ)
    {output input output' input' : Cursor} {inRegion outRegion inRegion' outRegion' : ByteArray}
    (hi : input.Resolves inRegion) (ho : output.Resolves outRegion)
    (hi' : input'.Resolves inRegion') (ho' : output'.Resolves outRegion')
    (same : input'.slice inRegion' = input.slice inRegion)
    (room : output'.stop.toNat - output'.start.toNat = output.stop.toNat - output.start.toNat) :
    AlikeWithin output outRegion output' outRegion'
      (stepOver (overBuffers call) s output input).value
      (stepOver (overBuffers call) s output' input').value := by
  have size : (output'.slice outRegion').size = (output.slice outRegion).size := by
    rw [ho.size_slice, ho'.size_slice, room]
  obtain ⟨code, state, inPos, pos, given⟩ := blinkered.alike (input.slice inRegion) _ _ size
  have inside := blinkered.inside (input.slice inRegion) (output.slice outRegion)
  rw [stepOver_overBuffers hi ho, stepOver_overBuffers hi' ho', same]
  -- The sizes of the two answers are equal, but not by definition: only their parts compare.
  generalize call ⟨input.slice inRegion, 0⟩ (.whole (output.slice outRegion)) = a at *
  generalize call ⟨input.slice inRegion, 0⟩ (.whole (output'.slice outRegion')) = a' at *
  obtain ⟨confined, produced⟩ := ho.splice a.output.size_dst
  obtain ⟨confined', produced'⟩ := ho'.splice a'.output.size_dst
  refine ⟨?_, state, _, _, confined, confined', ?_, ?_⟩
  · simp only [code, inPos, pos]
  · exact Nat.le_trans inside (Nat.le_of_eq ho.size_slice)
  · have fits : a.output.pos ≤ a.output.dst.size := by
      rw [a.output.size_dst]
      exact inside
    have fits' : a.output.pos ≤ a'.output.dst.size := by
      rw [a'.output.size_dst, size]
      exact inside
    unfold Answer.given at given
    rw [pos] at given
    dsimp only
    rw [produced _ fits, produced' _ fits']
    exact given

end

/-- A step through a codec over buffers sees of its regions what lies between the bounds of its
cursors, and of its output no more than how much that is. It writes nowhere else. -/
theorem steps_see_slices (compressor : Compressor σ) (decompressor : Decompressor τ)
    (compresses : ∀ s mode, Blinkered fun i o => compressor.step s i o mode)
    (decompresses : ∀ s, Blinkered fun i o => decompressor.step s i o)
    (output input output' input' : Cursor) (inRegion outRegion inRegion' outRegion' : ByteArray)
    (hi : input.Resolves inRegion) (ho : output.Resolves outRegion)
    (hi' : input'.Resolves inRegion') (ho' : output'.Resolves outRegion')
    (same : input'.slice inRegion' = input.slice inRegion)
    (room : output'.stop.toNat - output'.start.toNat = output.stop.toNat - output.start.toNat) :
    (∀ s mode, AlikeWithin output outRegion output' outRegion'
      (compressor.overBuffers.compress s output input mode).value
      (compressor.overBuffers.compress s output' input' mode).value) ∧
      ∀ s, AlikeWithin output outRegion output' outRegion'
        (decompressor.overBuffers.decompress s output input).value
        (decompressor.overBuffers.decompress s output' input').value := by
  constructor
  · intro s mode
    exact alike_stepOver (compresses s mode) s hi ho hi' ho' same room
  · intro s
    exact alike_stepOver (decompresses s) s hi ho hi' ho' same room

def smallFrame : ByteArray := ⟨#[0x28, 0xB5, 0x2F, 0xFD, 0x20, 3, 0x19, 0, 0, 1, 2, 3]⟩

/-- The same frame between other bytes. -/
def embedded : ByteArray := ⟨#[7, 7]⟩ ++ smallFrame ++ ⟨#[9]⟩

/-- Where a frame lies and what its output held makes no difference, be it decompressed or
compressed once more. -/
theorem steps_see_slices_embedded :
    let input : Cursor := ⟨some smallFrame, 0, 12⟩
    let output : Cursor := ⟨some ⟨.replicate 24 0⟩, 0, 24⟩
    let input' : Cursor := ⟨some embedded, 2, 14⟩
    let output' : Cursor := ⟨some ⟨.replicate 26 5⟩, 1, 25⟩
    let compressed := (Frame.compressor.compress {} output input .finish).value
    let decompressed := (Frame.decompressor.decompress {} output input).value
    compressed.report = ⟨.hint 0, ⟨12, 21⟩⟩ ∧ decompressed.report = ⟨.hint 0, ⟨12, 3⟩⟩ ∧
      decompressed.output.written 3 = ⟨#[1, 2, 3]⟩ ∧
      AlikeWithin output ⟨.replicate 24 0⟩ output' ⟨.replicate 26 5⟩ compressed
        (Frame.compressor.compress {} output' input' .finish).value ∧
      AlikeWithin output ⟨.replicate 24 0⟩ output' ⟨.replicate 26 5⟩ decompressed
        (Frame.decompressor.decompress {} output' input').value := by
  intro input output input' output' compressed decompressed
  have hi : input.Resolves smallFrame := ⟨rfl, by decide, by decide⟩
  have ho : output.Resolves ⟨.replicate 24 0⟩ := ⟨rfl, by decide, by decide⟩
  have hi' : input'.Resolves embedded := ⟨rfl, by decide, by decide⟩
  have ho' : output'.Resolves ⟨.replicate 26 5⟩ := ⟨rfl, by decide, by decide⟩
  have alike := steps_see_slices Frame.compressor Frame.decompressor
    (fun s mode => blinkered_over fun unread room => Frame.Encoder.run s unread room mode)
    (fun s => blinkered_over (Frame.Decoder.run s)) output input output' input' smallFrame _
    embedded _ hi ho hi' ho' (by decide) rfl
  rw [Frame.compressor_overBuffers, Frame.decompressor_overBuffers] at alike
  exact ⟨by decide +kernel, by decide +kernel, by decide +kernel, alike.1 {} .finish, alike.2 {}⟩

end Sluice
