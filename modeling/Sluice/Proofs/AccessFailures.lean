import Sluice.Proofs.Relay

namespace Sluice

variable {σ : Type}

namespace Cursor

variable {c : Cursor}

def Ordered (c : Cursor) : Prop := c.start ≤ c.stop

/-- A region is attached, and it is there up to the stop. -/
def Reaches (c : Cursor) : Prop := ∃ region, c.region = some region ∧ c.stop.toNat ≤ region.size

theorem exists_resolves_iff : (∃ region, c.Resolves region) ↔ c.Ordered ∧ c.Reaches := by
  constructor
  · rintro ⟨region, resolves⟩
    exact ⟨UInt64.le_iff_toNat_le.mpr resolves.start_le, region, resolves.attached,
      resolves.stop_le⟩
  · rintro ⟨ordered, region, attached, inside⟩
    exact ⟨region, attached, UInt64.le_iff_toNat_le.mp ordered, inside⟩

theorem ordered_advance (c : Cursor) (n : Word) : (c.advance n).Ordered := by
  unfold Ordered
  rw [UInt64.le_iff_toNat_le, toNat_start_advance]
  exact Nat.min_le_right _ _

/-- Advancing by nothing changes exactly the cursors whose bounds are out of order. -/
theorem advance_zero_eq_iff : c.advance 0 = c ↔ c.Ordered := by
  constructor
  · intro same
    have ordered := ordered_advance c 0
    rwa [same] at ordered
  · intro ordered
    have le := UInt64.le_iff_toNat_le.mp ordered
    have start : (c.advance 0).start = c.start := by
      apply UInt64.toNat_inj.mp
      rw [toNat_start_advance, UInt64.toNat_zero, Nat.add_zero, Nat.min_eq_left le]
    obtain ⟨region, first, stop⟩ := c
    exact congrArg (fun first => (⟨region, first, stop⟩ : Cursor)) start

end Cursor

namespace Relay

variable {x : Relay σ} {k : Stroke σ}

def Ready (x : Relay σ) : Prop :=
  ∃ inRegion outRegion, x.input.Resolves inRegion ∧ x.output.Resolves outRegion

/-- Every step of every run over the cursors fails to find a region, and none calls its codec. -/
structure Barred (x : Relay σ) : Prop where
  refused : ∀ ks : List (Stroke σ), ∀ p ∈ (x.run ks).1, p.report = .accessFailure
  unseen : ∀ (ks : List (Stroke σ)) seen,
    ((x.watched seen).run (ks.map .watched)).2.session = (x.session, seen)

theorem ready_iff : x.Ready ↔
    (x.input.Ordered ∧ x.output.Ordered) ∧ x.input.Reaches ∧ x.output.Reaches := by
  have both : x.Ready ↔ (∃ r, x.input.Resolves r) ∧ ∃ r, x.output.Resolves r :=
    ⟨fun ⟨i, o, hi, ho⟩ => ⟨⟨i, hi⟩, o, ho⟩, fun ⟨⟨i, hi⟩, o, ho⟩ => ⟨i, o, hi, ho⟩⟩
  rw [both, Cursor.exists_resolves_iff, Cursor.exists_resolves_iff, and_and_and_comm]

theorem step_of_not_ready (missing : ¬x.Ready) (k : Stroke σ) :
    (x.step k).1.report = .accessFailure ∧
      (x.step k).2 = ⟨x.session, x.output.advance 0, x.input.advance 0⟩ := by
  have served : ((k.request x.output x.input).serve x.session).value =
      ⟨.accessFailure, x.session, x.output⟩ := by
    cases k with
    | compress codec mode => exact stepOver_of_unresolved missing
    | decompress codec => exact stepOver_of_unresolved missing
  unfold step
  rw [served]
  exact ⟨rfl, rfl⟩

theorem failed_iff : (x.step k).1.report.status = .bufferAccessFailure ↔ ¬x.Ready := by
  constructor
  · rintro failed ⟨inRegion, outRegion, hi, ho⟩
    rw [step_eq hi ho] at failed
    dsimp only [Status.ofCode] at failed
    split at failed <;> cases failed
  · intro missing
    rw [(step_of_not_ready missing k).1]
    rfl

theorem seen_step (ready : x.Ready) (k : Stroke σ) (seen : List Sight) :
    ∃ sight, ((x.watched seen).step k.watched).2.session.2 = seen ++ [sight] := by
  obtain ⟨inRegion, outRegion, hi, ho⟩ := ready
  rw [step_watched hi ho]
  exact ⟨_, rfl⟩

/-- A region that ends before its stop is out of reach whatever its cursor is advanced by. -/
theorem barred_of_not_reaches (short : ¬(x.input.Reaches ∧ x.output.Reaches)) : x.Barred := by
  have missing : ∀ {τ : Type} {y : Relay τ}, ¬(y.input.Reaches ∧ y.output.Reaches) → ¬y.Ready :=
    fun short ready => short (ready_iff.mp ready).2
  refine ⟨fun ks => ?_, fun ks seen => ?_⟩
  · induction ks generalizing x with
    | nil => exact nofun
    | cons k ks ih =>
      obtain ⟨report, next⟩ := step_of_not_ready (missing short) k
      have later : ∀ p ∈ ((x.step k).2.run ks).1, p.report = .accessFailure := by
        rw [next]
        exact ih short
      intro p hp
      rcases List.mem_cons.mp hp with rfl | hp
      · exact report
      · exact later p hp
  · induction ks generalizing x with
    | nil => rfl
    | cons k ks ih =>
      have first := (step_of_not_ready (x := x.watched seen) (missing short) k.watched).2
      change (((x.watched seen).step k.watched).2.run (ks.map .watched)).2.session = _
      rw [first]
      exact ih (x := ⟨x.session, x.output.advance 0, x.input.advance 0⟩) short

/-- After a step that found a region missing and an advance by its progress, the cursors are as they
were exactly if the bounds of both were in order, and every further step fails in the same way
exactly if one of the regions is not there up to its stop; if both are, the next step calls its
codec. So the failure is stable exactly if the bounds of both cursors were in order. -/
theorem failure_stable_iff (x : Relay σ) (k : Stroke σ)
    (failed : (x.step k).1.report.status = .bufferAccessFailure) :
    let y := (x.step k).2
    (x.step k).1.report.progress = .zero ∧ y.session = x.session ∧
      (y.input = x.input ∧ y.output = x.output ↔ x.input.Ordered ∧ x.output.Ordered) ∧
      (y.Barred ↔ ¬(x.input.Reaches ∧ x.output.Reaches)) ∧
      (x.input.Reaches ∧ x.output.Reaches →
        ∀ (k' : Stroke σ) seen, ∃ sight,
          ((y.watched seen).step k'.watched).2.session.2 = seen ++ [sight]) ∧
      ((y.input = x.input ∧ y.output = x.output) ∧ y.Barred ↔
        x.input.Ordered ∧ x.output.Ordered) := by
  intro y
  have missing := failed_iff.mp failed
  obtain ⟨report, next⟩ := step_of_not_ready missing k
  have hy : y = ⟨x.session, x.output.advance 0, x.input.advance 0⟩ := next
  have kept : y.input = x.input ∧ y.output = x.output ↔ x.input.Ordered ∧ x.output.Ordered := by
    rw [hy]
    exact and_congr Cursor.advance_zero_eq_iff Cursor.advance_zero_eq_iff
  -- Advancing has put the bounds in order, so that only the regions can be short.
  have ready : x.input.Reaches ∧ x.output.Reaches → y.Ready := by
    intro reaches
    rw [hy]
    exact ready_iff.mpr ⟨⟨x.input.ordered_advance 0, x.output.ordered_advance 0⟩, reaches⟩
  have barred : y.Barred ↔ ¬(x.input.Reaches ∧ x.output.Reaches) := by
    constructor
    · intro barred reaches
      have refused : (y.step k).1.report = .accessFailure :=
        barred.refused [k] _ List.mem_cons_self
      exact failed_iff.mp (congrArg Report.status refused) (ready reaches)
    · intro short
      rw [hy]
      exact barred_of_not_reaches short
  refine ⟨?_, ?_, kept, barred, fun reaches k' seen => seen_step (ready reaches) k' seen, ?_⟩
  · rw [report]
    rfl
  · rw [hy]
  · rw [kept, barred, and_iff_left_iff_imp]
    exact fun ordered reaches => missing (ready_iff.mpr ⟨ordered, reaches⟩)

def outOfReach : Relay Nat :=
  { session := 0
    input := ⟨some ⟨#[1, 7]⟩, 1, 3⟩
    output := .unset }

theorem failure_stable_outOfReach :
    let y := (outOfReach.step (.decompress Blocks.decompressor)).2
    (y.input = outOfReach.input ∧ y.output = outOfReach.output) ∧ y.Barred := by
  have ordered : outOfReach.input.Ordered ∧ outOfReach.output.Ordered :=
    ⟨show (1 : Word) ≤ 3 by decide, show (0 : Word) ≤ 0 by decide⟩
  obtain ⟨-, -, -, -, -, stable⟩ :=
    failure_stable_iff outOfReach (.decompress Blocks.decompressor) rfl
  exact stable.mpr ordered

/-- An input that starts past its stop, both inside the region. -/
def inverted : Relay Nat :=
  { session := 0
    input := ⟨some ⟨#[0, 1, 2, 3, 4, 5, 6, 7]⟩, 6, 2⟩
    output := .full ⟨#[0, 0, 0, 0]⟩ }

/-- The step fails, and the next one calls the codec, over an input that was moved back. -/
theorem failure_not_stable :
    let k : Stroke Nat := .decompress Blocks.decompressor
    let y := (inverted.step k).2
    (inverted.step k).1.report = .accessFailure ∧ inverted.input.start = 6 ∧ y.input.start = 2 ∧
      (y.step k).1.report = ⟨.hint 1, .zero⟩ ∧ ¬y.Barred := by
  intro k y
  have next : (y.step k).1.report = ⟨.hint 1, .zero⟩ := by decide +kernel
  refine ⟨rfl, rfl, by decide +kernel, next, fun barred => ?_⟩
  have refused : (y.step k).1.report = .accessFailure := barred.refused [k] _ List.mem_cons_self
  rw [next] at refused
  cases refused

end Relay

end Sluice
