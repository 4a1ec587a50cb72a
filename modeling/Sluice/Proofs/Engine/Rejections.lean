import Mathlib.Data.List.Induction
import Sluice.Proofs.Engine.Isolation
import Sluice.Proofs.Step

namespace Sluice

namespace SessionTable

variable {α β : Type} {t : SessionTable α} {h k : Handle} {direction : Direction}

/-- What one call does to one table: the handle it hands out, and the one it closes. -/
inductive Reached (direction : Direction) (t : SessionTable α) :
    (opened closed : Option Handle) → SessionTable α → Prop
  | other : Reached direction t none none t
  | opened (session : α) : Reached direction t (some (t.insert session).1) none (t.insert session).2
  | used {β : Type} (k : Handle) (run : Entry α → Logged (β × Entry α)) :
    Reached direction t none none (t.withSession k run).value.2
  | closed (k : Handle) :
    Reached direction t none (some k) (t.closeSession direction k).value.2

/-- After a call those handles are open that were before or are handed out, and not closed. -/
theorem Reached.isSome_iff {opened closed : Option Handle} {t' : SessionTable α}
    (reached : Reached direction t opened closed t') (ht : t.Consistent)
    (fits : t'.slots.size ≤ UInt32.size) :
    (t'.get? h).isSome ↔ opened = some h ∨ (t.get? h).isSome ∧ closed ≠ some h := by
  cases reached with
  | other => simp
  | opened session =>
    have hi := inserted ht fits
    by_cases same : h = (t.insert session).1
    · subst same
      simp [hi.found]
    · rw [hi.others h same]
      simp [Ne.symm same]
  | used k run =>
    cases hg : t.get? k with
    | none => simp [withSession_none run hg]
    | some entry =>
      rw [withSession_some run hg]
      have hr := replaced ht hg (run entry).value.2
      by_cases same : h = k
      · subst same
        simp [hr.found, hg]
      · simp [hr.others h same]
  | closed k =>
    cases hg : t.get? k with
    | none =>
      rw [closeSession_none hg]
      by_cases same : h = k
      · subst same
        simp [hg]
      · simp [Ne.symm same]
    | some entry =>
      obtain ⟨t', hc, hr⟩ := closeSession_some ht hg
      rw [hc]
      by_cases same : h = k
      · subst same
        simp [hr.gone]
      · simp [hr.others h same, Ne.symm same]

theorem withSession_stale_iff (run : Entry α → Logged (β × Entry α)) :
    (t.withSession h run).value.1 = .error .staleHandle ↔ t.get? h = none := by
  cases hg : t.get? h with
  | none => simp [withSession_none run hg]
  | some entry => simp [withSession_some run hg]

theorem progress_stale_iff : t.progress h = .error .staleHandle ↔ t.get? h = none := by
  unfold progress
  cases t.get? h <;> simp

theorem closeSession_stale_iff :
    (t.closeSession direction h).value.1 = .error .staleHandle ↔ t.get? h = none := by
  cases hg : t.get? h with
  | none => simp [closeSession_none hg]
  | some entry => simp [closeSession, remove, hg]

/-- The same table, with the progress of one session back at zero. -/
def clearProgress (t : SessionTable α) (h : Handle) : SessionTable α :=
  { t with slots := t.slots.modify h.index.toNat fun slot =>
      { slot with entry := slot.entry.map fun entry => { entry with progress := .zero } } }

theorem set_eq_clearProgress {entry : Entry α} (hg : t.get? h = some entry) :
    t.set h ⟨entry.session, .zero⟩ = t.clearProgress h := by
  have hs := get?_eq_some_iff.mp hg
  have slots : (t.setSlot h.index ⟨h.generation, some ⟨entry.session, .zero⟩⟩).slots =
      (t.clearProgress h).slots := by
    apply Array.ext_getElem?
    intro i
    unfold clearProgress
    rw [slots_setSlot, Array.getElem?_modify]
    by_cases here : h.index.toNat = i
    · subst here
      simp [hs]
    · simp [here]
  unfold SessionTable.set
  rw [hg]
  exact congrArg (fun slots => { t with slots }) slots

end SessionTable

namespace Engine

variable {σ τ : Type}

/-- The answer of a call that is turned down: it found no session, or got no context for one. -/
def Call.rejection : Call σ τ → Reply
  | openCompressor _ => .compressor none
  | openDecompressor _ => .decompressor none
  | setParameter .. => .status (.error .staleHandle)
  | compress .. | compressBounds .. | decompress .. | decompressBounds .. =>
    .stepped (.error .staleHandle)
  | compressorProgress _ | decompressorProgress _ => .progress (.error .staleHandle)
  | closeCompressor _ | closeDecompressor _ => .closed (.error .staleHandle)

def Call.cursors? : Call σ τ → Option (Cursor × Cursor)
  | compress _ output input _ | decompress _ output input => some (output, input)
  | compressBounds _ output outStart outStop input inStart inStop _
  | decompressBounds _ output outStart outStop input inStart inStop =>
    some (⟨some output, outStart, outStop⟩, ⟨some input, inStart, inStop⟩)
  | _ => none

/-- In a run of a new engine some call had this answer, and no call after it was the closing one. -/
def Since (cc : Compressor σ) (dc : Decompressor τ) (answer : Reply) (closing : Call σ τ)
    (calls : List (Call σ τ)) : Prop :=
  ∃ before c rest, calls = before ++ c :: rest ∧
    ((after cc dc {} before).serve cc dc c).value.1 = answer ∧ closing ∉ rest

def CompressorOpen (cc : Compressor σ) (dc : Decompressor τ) (calls : List (Call σ τ))
    (h : CompressorHandle) : Prop :=
  Since cc dc (.compressor (some h)) (.closeCompressor h) calls

def DecompressorOpen (cc : Compressor σ) (dc : Decompressor τ) (calls : List (Call σ τ))
    (h : DecompressorHandle) : Prop :=
  Since cc dc (.decompressor (some h)) (.closeDecompressor h) calls

variable {cc : Compressor σ} {dc : Decompressor τ} {e : Engine σ τ} {c : Call σ τ}
  {calls : List (Call σ τ)}

/-- The last call either had the answer itself, or did not close what an earlier one began. -/
theorem since_snoc {answer : Reply} {closing : Call σ τ} :
    Since cc dc answer closing (calls ++ [c]) ↔
      ((after cc dc {} calls).serve cc dc c).value.1 = answer ∨
        Since cc dc answer closing calls ∧ c ≠ closing := by
  constructor
  · rintro ⟨before, d, rest, split, answered, others⟩
    -- either the last call is the one that was answered so, or it comes after that one
    rcases List.eq_nil_or_concat rest with rfl | ⟨rest, d', rfl⟩
    · obtain ⟨rfl, last⟩ := List.append_inj' split rfl
      cases last
      exact .inl answered
    · have parts : calls ++ [c] = (before ++ d :: rest) ++ [d'] := by simpa using split
      obtain ⟨rfl, last⟩ := List.append_inj' parts rfl
      cases last
      simp only [List.concat_eq_append, List.mem_append, List.mem_singleton, not_or] at others
      exact .inr ⟨⟨before, d, rest, rfl, answered, others.1⟩, Ne.symm others.2⟩
  · rintro (answered | ⟨⟨before, d, rest, rfl, answered, others⟩, other⟩)
    · exact ⟨calls, c, [], rfl, answered, List.not_mem_nil⟩
    · refine ⟨before, d, rest ++ [c], by simp, answered, ?_⟩
      rw [List.mem_append, List.mem_singleton, not_or]
      exact ⟨others, Ne.symm other⟩

section Open

variable {α : Type} {table : Engine σ τ → SessionTable α} {h : Handle} {answer : Reply}
  {closing : Call σ τ}

/-- A table holds the session of a handle exactly if some call handed the handle out, and none
after it closed it, provided that each call has this effect. -/
theorem isSome_after_iff (start : (table {}).get? h = none)
    (step : ∀ {e : Engine σ τ} {c}, e.Consistent → (e.next cc dc c).Fits →
      (((table (e.next cc dc c)).get? h).isSome ↔
        (e.serve cc dc c).value.1 = answer ∨ ((table e).get? h).isSome ∧ c ≠ closing))
    (fits : (after cc dc {} calls).Fits) :
    ((table (after cc dc {} calls)).get? h).isSome ↔ Since cc dc answer closing calls := by
  -- from the end of the run: what is open is decided by its latest calls
  induction calls using List.reverseRecOn with
  | nil =>
    have none : ¬Since cc dc answer closing [] := by
      rintro ⟨before, c, rest, split, -⟩
      simp at split
    change ((table {}).get? h).isSome ↔ _
    rw [start]
    simpa using none
  | append_singleton calls c ih =>
    rw [after_append] at fits ⊢
    have before := Fits.of_after fits
    have held := step (c := c) (Consistent.empty.after before) fits
    rw [since_snoc, ← ih before]
    exact held

end Open

theorem none_iff {p : Handle → Prop} (never : ∀ h, ¬p h) (h : Handle) : none = some h ↔ p h :=
  ⟨nofun, fun here => absurd here (never h)⟩

theorem reached_compressors (c : Call σ τ) :
    ∃ opened closed, e.compressors.Reached .compress opened closed (e.next cc dc c).compressors ∧
      (∀ h, opened = some h ↔ (e.serve cc dc c).value.1 = .compressor (some ⟨h⟩)) ∧
      ∀ h, closed = some h ↔ c = .closeCompressor ⟨h⟩ := by
  cases c with
  | openCompressor fresh =>
    cases fresh with
    | none => exact ⟨none, none, .other, none_iff nofun, none_iff nofun⟩
    | some session =>
      refine ⟨_, none, .opened session, fun h => ⟨?_, ?_⟩, none_iff nofun⟩
      · rintro ⟨⟩
        rfl
      · intro same
        change Reply.compressor (some ⟨(e.compressors.insert session).1⟩) = _ at same
        cases same
        rfl
  | closeCompressor k =>
    refine ⟨none, _, .closed k.handle, none_iff nofun, fun h => ⟨?_, ?_⟩⟩
    · rintro ⟨⟩
      rfl
    · rintro ⟨⟩
      rfl
  | setParameter k id value =>
    exact ⟨none, none, .used k.handle _, none_iff nofun, none_iff nofun⟩
  | compress k output input mode =>
    exact ⟨none, none, .used k.handle _, none_iff nofun, none_iff nofun⟩
  | compressBounds k output outStart outStop input inStart inStop mode =>
    exact ⟨none, none, .used k.handle _, none_iff nofun, none_iff nofun⟩
  | openDecompressor fresh =>
    cases fresh <;> exact ⟨none, none, .other, none_iff nofun, none_iff nofun⟩
  | _ => exact ⟨none, none, .other, none_iff nofun, none_iff nofun⟩

theorem reached_decompressors (c : Call σ τ) :
    ∃ opened closed,
      e.decompressors.Reached .decompress opened closed (e.next cc dc c).decompressors ∧
      (∀ h, opened = some h ↔ (e.serve cc dc c).value.1 = .decompressor (some ⟨h⟩)) ∧
      ∀ h, closed = some h ↔ c = .closeDecompressor ⟨h⟩ := by
  cases c with
  | openDecompressor fresh =>
    cases fresh with
    | none => exact ⟨none, none, .other, none_iff nofun, none_iff nofun⟩
    | some session =>
      refine ⟨_, none, .opened session, fun h => ⟨?_, ?_⟩, none_iff nofun⟩
      · rintro ⟨⟩
        rfl
      · intro same
        change Reply.decompressor (some ⟨(e.decompressors.insert session).1⟩) = _ at same
        cases same
        rfl
  | closeDecompressor k =>
    refine ⟨none, _, .closed k.handle, none_iff nofun, fun h => ⟨?_, ?_⟩⟩
    · rintro ⟨⟩
      rfl
    · rintro ⟨⟩
      rfl
  | decompress k output input =>
    exact ⟨none, none, .used k.handle _, none_iff nofun, none_iff nofun⟩
  | decompressBounds k output outStart outStop input inStart inStop =>
    exact ⟨none, none, .used k.handle _, none_iff nofun, none_iff nofun⟩
  | openCompressor fresh =>
    cases fresh <;> exact ⟨none, none, .other, none_iff nofun, none_iff nofun⟩
  | _ => exact ⟨none, none, .other, none_iff nofun, none_iff nofun⟩

theorem compressorOpen_iff (fits : (after cc dc {} calls).Fits) (h : CompressorHandle) :
    CompressorOpen cc dc calls h ↔
      ((after cc dc {} calls).compressors.get? h.handle).isSome := by
  refine (isSome_after_iff rfl (fun {e} {c} he fits => ?_) fits).symm
  obtain ⟨opened, closed, reached, opens, closes⟩ := reached_compressors c
  rw [reached.isSome_iff he.compressors fits.1, opens, Ne, closes]

theorem decompressorOpen_iff (fits : (after cc dc {} calls).Fits) (h : DecompressorHandle) :
    DecompressorOpen cc dc calls h ↔
      ((after cc dc {} calls).decompressors.get? h.handle).isSome := by
  refine (isSome_after_iff rfl (fun {e} {c} he fits => ?_) fits).symm
  obtain ⟨opened, closed, reached, opens, closes⟩ := reached_decompressors c
  rw [reached.isSome_iff he.decompressors fits.2, opens, Ne, closes]

theorem rejected_compressor_iff {h : CompressorHandle} (hn : c.compressor? = some h) :
    (e.serve cc dc c).value.1 = c.rejection ↔ e.compressors.get? h.handle = none := by
  cases c <;> cases hn
  case setParameter =>
    exact (iff_of_eq (Reply.status.injEq ..)).trans (SessionTable.withSession_stale_iff _)
  case compress =>
    exact (iff_of_eq (Reply.stepped.injEq ..)).trans (SessionTable.withSession_stale_iff _)
  case compressBounds =>
    exact (iff_of_eq (Reply.stepped.injEq ..)).trans (SessionTable.withSession_stale_iff _)
  case compressorProgress =>
    exact (iff_of_eq (Reply.progress.injEq ..)).trans SessionTable.progress_stale_iff
  case closeCompressor =>
    exact (iff_of_eq (Reply.closed.injEq ..)).trans SessionTable.closeSession_stale_iff

theorem rejected_decompressor_iff {h : DecompressorHandle} (hn : c.decompressor? = some h) :
    (e.serve cc dc c).value.1 = c.rejection ↔ e.decompressors.get? h.handle = none := by
  cases c <;> cases hn
  case decompress =>
    exact (iff_of_eq (Reply.stepped.injEq ..)).trans (SessionTable.withSession_stale_iff _)
  case decompressBounds =>
    exact (iff_of_eq (Reply.stepped.injEq ..)).trans (SessionTable.withSession_stale_iff _)
  case decompressorProgress =>
    exact (iff_of_eq (Reply.progress.injEq ..)).trans SessionTable.progress_stale_iff
  case closeDecompressor =>
    exact (iff_of_eq (Reply.closed.injEq ..)).trans SessionTable.closeSession_stale_iff

theorem serve_stale_compressor {h : CompressorHandle} (hn : c.compressor? = some h)
    (stale : e.compressors.get? h.handle = none) : (e.serve cc dc c).value = (c.rejection, e) := by
  have unused : ∀ {β : Type} (wrap : Except Fault β → Reply)
      (run : Entry σ → Logged (β × Entry σ)),
      let x := (e.compressors.withSession h.handle run).value
      (wrap x.1, { e with compressors := x.2 }) = (wrap (.error .staleHandle), e) := by
    intro β wrap run
    rw [SessionTable.withSession_none run stale]
  cases c <;> cases hn
  case setParameter => exact unused Reply.status _
  case compress => exact unused Reply.stepped _
  case compressBounds => exact unused Reply.stepped _
  case compressorProgress =>
    exact congrArg (fun a => (Reply.progress a, e)) (SessionTable.progress_stale_iff.mpr stale)
  case closeCompressor =>
    exact congrArg (fun x => (Reply.closed x.1, { e with compressors := x.2 }))
      (SessionTable.closeSession_none stale)

theorem serve_stale_decompressor {h : DecompressorHandle} (hn : c.decompressor? = some h)
    (stale : e.decompressors.get? h.handle = none) :
    (e.serve cc dc c).value = (c.rejection, e) := by
  have unused : ∀ run : Entry τ → Logged ((Report × Cursor) × Entry τ),
      let x := (e.decompressors.withSession h.handle run).value
      (Reply.stepped x.1, { e with decompressors := x.2 }) =
        (.stepped (.error .staleHandle), e) := by
    intro run
    rw [SessionTable.withSession_none run stale]
  cases c <;> cases hn
  case decompress => exact unused _
  case decompressBounds => exact unused _
  case decompressorProgress =>
    exact congrArg (fun a => (Reply.progress a, e)) (SessionTable.progress_stale_iff.mpr stale)
  case closeDecompressor =>
    exact congrArg (fun x => (Reply.closed x.1, { e with decompressors := x.2 }))
      (SessionTable.closeSession_none stale)

theorem Call.creates_or_names (c : Call σ τ) :
    (∃ fresh, c = .openCompressor fresh) ∨ (∃ fresh, c = .openDecompressor fresh) ∨
      (∃ h, c.compressor? = some h) ∨ ∃ h, c.decompressor? = some h := by
  cases c <;> simp [Call.compressor?, Call.decompressor?]

theorem serve_rejected (rejected : (e.serve cc dc c).value.1 = c.rejection) (cc' : Compressor σ)
    (dc' : Decompressor τ) : (e.serve cc' dc' c).value = (c.rejection, e) := by
  rcases c.creates_or_names with ⟨fresh, rfl⟩ | ⟨fresh, rfl⟩ | ⟨h, named⟩ | ⟨h, named⟩
  · cases fresh with
    | none => rfl
    | some session => cases rejected
  · cases fresh with
    | none => rfl
    | some session => cases rejected
  · exact serve_stale_compressor named ((rejected_compressor_iff named).mp rejected)
  · exact serve_stale_decompressor named ((rejected_decompressor_iff named).mp rejected)

/-- A step that is shown nothing is answered, and its session keeps all but its progress. -/
theorem drive_unresolved {α : Type} {t : SessionTable α} {h : Handle} {output input : Cursor}
    (missing : ¬∃ inRegion outRegion, input.Resolves inRegion ∧ output.Resolves outRegion)
    (run : α → {size : Nat} → InWindow → OutWindow size → Answer α size)
    (found : (t.get? h).isSome) :
    (t.drive h fun s => stepOver (run s) s output input).value =
      (.ok (.accessFailure, output), t.clearProgress h) := by
  obtain ⟨entry, hg⟩ := Option.isSome_iff_exists.mp found
  unfold SessionTable.drive
  rw [SessionTable.withSession_some _ hg, ← SessionTable.set_eq_clearProgress hg]
  simp only [Logged.value_bind, Logged.value_pure, stepOver_of_unresolved missing]
  rfl

section Unresolved

variable {output input : Cursor} (cursors : c.cursors? = some (output, input))
  (missing : ¬∃ inRegion outRegion, input.Resolves inRegion ∧ output.Resolves outRegion)

include cursors missing

theorem serve_unresolved_compressor {h : CompressorHandle} (named : c.compressor? = some h)
    (found : (e.compressors.get? h.handle).isSome) :
    (e.serve cc dc c).value = (.stepped (.ok (.accessFailure, output)),
      { e with compressors := e.compressors.clearProgress h.handle }) := by
  cases c <;> cases named <;> cases cursors
  case compress mode =>
    exact congrArg (fun x => (Reply.stepped x.1, { e with compressors := x.2 }))
      (drive_unresolved missing (fun s _ i o => cc.step s i o mode) found)
  case compressBounds mode =>
    exact congrArg (fun x => (Reply.stepped x.1, { e with compressors := x.2 }))
      (drive_unresolved missing (fun s _ i o => cc.step s i o mode) found)

theorem serve_unresolved_decompressor {h : DecompressorHandle} (named : c.decompressor? = some h)
    (found : (e.decompressors.get? h.handle).isSome) :
    (e.serve cc dc c).value = (.stepped (.ok (.accessFailure, output)),
      { e with decompressors := e.decompressors.clearProgress h.handle }) := by
  cases c <;> cases named <;> cases cursors
  case decompress =>
    exact congrArg (fun x => (Reply.stepped x.1, { e with decompressors := x.2 }))
      (drive_unresolved missing (fun s _ i o => dc.step s i o) found)
  case decompressBounds =>
    exact congrArg (fun x => (Reply.stepped x.1, { e with decompressors := x.2 }))
      (drive_unresolved missing (fun s _ i o => dc.step s i o) found)

end Unresolved

/-- What every run that needs no more slots than there are indices leaves to its next call. A call
through a handle is rejected exactly if the handle is not that of an open session. A call that is
rejected, or a creation that gets no context, is answered without any codec and leaves the engine
as it is. A step through the handle of an open session over a region that is missing is answered so
without the codec, its output as it was, and clears the progress of its session and nothing else.
No call changes a session that it does not name. -/
theorem rejections_atomic (cc : Compressor σ) (dc : Decompressor τ) (calls : List (Call σ τ))
    (fits : (after cc dc {} calls).Fits) (c : Call σ τ) :
    let e := after cc dc {} calls
    (∀ h, c.compressor? = some h →
      ((e.serve cc dc c).value.1 = c.rejection ↔ ¬CompressorOpen cc dc calls h)) ∧
    (∀ h, c.decompressor? = some h →
      ((e.serve cc dc c).value.1 = c.rejection ↔ ¬DecompressorOpen cc dc calls h)) ∧
    ((e.serve cc dc c).value.1 = c.rejection →
      ∀ cc' dc', (e.serve cc' dc' c).value = (c.rejection, e)) ∧
    (∀ output input, c.cursors? = some (output, input) →
      (¬∃ inRegion outRegion, input.Resolves inRegion ∧ output.Resolves outRegion) →
      (∀ h, c.compressor? = some h → CompressorOpen cc dc calls h →
        ∀ cc' dc', (e.serve cc' dc' c).value = (.stepped (.ok (.accessFailure, output)),
          { e with compressors := e.compressors.clearProgress h.handle })) ∧
      (∀ h, c.decompressor? = some h → DecompressorOpen cc dc calls h →
        ∀ cc' dc', (e.serve cc' dc' c).value = (.stepped (.ok (.accessFailure, output)),
          { e with decompressors := e.decompressors.clearProgress h.handle }))) ∧
    (∀ h entry, c.compressor? ≠ some h → e.compressors.get? h.handle = some entry →
      (e.next cc dc c).compressors.get? h.handle = some entry) ∧
    (∀ h entry, c.decompressor? ≠ some h → e.decompressors.get? h.handle = some entry →
      (e.next cc dc c).decompressors.get? h.handle = some entry) := by
  intro e
  have he : e.Consistent := Consistent.empty.after fits
  refine ⟨?_, ?_, serve_rejected, ?_, ?_, ?_⟩
  · intro h named
    rw [rejected_compressor_iff named, compressorOpen_iff fits, Option.not_isSome_iff_eq_none]
  · intro h named
    rw [rejected_decompressor_iff named, decompressorOpen_iff fits, Option.not_isSome_iff_eq_none]
  · intro output input cursors missing
    refine ⟨fun h named isOpen cc' dc' => ?_, fun h named isOpen cc' dc' => ?_⟩
    · exact serve_unresolved_compressor cursors missing named
        ((compressorOpen_iff fits h).mp isOpen)
    · exact serve_unresolved_decompressor cursors missing named
        ((decompressorOpen_iff fits h).mp isOpen)
  · intro h entry other hg
    refine (moved_compressors c).get?_of_ne he.compressors hg fun same => other ?_
    obtain ⟨k, hk, sameHandle⟩ := Option.map_eq_some_iff.mp same
    rw [hk]
    exact congrArg some (congrArg DirectedHandle.mk sameHandle)
  · intro h entry other hg
    refine (moved_decompressors c).get?_of_ne he.decompressors hg fun same => other ?_
    obtain ⟨k, hk, sameHandle⟩ := Option.map_eq_some_iff.mp same
    rw [hk]
    exact congrArg some (congrArg DirectedHandle.mk sameHandle)

/-- The compressor that was closed is presented again when its slot is in use anew. -/
theorem rejections_atomic_interleaved :
    let cc := Echo.compressor 8
    let dc := Echo.decompressor 8
    let calls := interleaved ++ [.openCompressor (some ())]
    let e := after cc dc {} calls
    let late : Call Unit Unit := .compress ⟨⟨0, 0⟩⟩ (.full ⟨#[0]⟩) (.full ⟨#[1]⟩) .more
    let unset : Call Unit Unit := .compress ⟨⟨0, 1⟩⟩ .unset (.full ⟨#[1]⟩) .more
    e.Fits ∧ ¬CompressorOpen cc dc calls ⟨⟨0, 0⟩⟩ ∧ CompressorOpen cc dc calls ⟨⟨0, 1⟩⟩ ∧
      (∀ cc' dc', (e.serve cc' dc' late).value = (late.rejection, e)) ∧
      ∀ cc' dc', (e.serve cc' dc' unset).value = (.stepped (.ok (.accessFailure, .unset)),
        { e with compressors := e.compressors.clearProgress ⟨0, 1⟩ }) := by
  intro cc dc calls e late unset
  have fits : e.Fits := ⟨by decide, by decide⟩
  have isOpen : CompressorOpen cc dc calls ⟨⟨0, 1⟩⟩ :=
    ⟨interleaved, .openCompressor (some ()), [], rfl, rfl, List.not_mem_nil⟩
  have missing : ¬∃ inRegion outRegion,
      (Cursor.full ⟨#[1]⟩).Resolves inRegion ∧ Cursor.unset.Resolves outRegion := by
    rintro ⟨_, _, -, attached, -⟩
    cases attached
  have rejected : (e.serve cc dc late).value.1 = late.rejection := rfl
  obtain ⟨stale, -, kept, -⟩ := rejections_atomic cc dc calls fits late
  obtain ⟨-, -, -, unresolved, -⟩ := rejections_atomic cc dc calls fits unset
  exact ⟨fits, (stale _ rfl).mp rejected, isOpen, kept rejected,
    (unresolved _ _ rfl missing).1 _ rfl isOpen⟩

end Engine

end Sluice
