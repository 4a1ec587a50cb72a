import Sluice.Proofs.Engine.Rejections
import Sluice.Proofs.Session.Generations

namespace Sluice

namespace SessionTable

variable {α : Type} {t t' : SessionTable α} {handles : List Handle} {h : Handle}
  {direction : Direction}

theorem Numbered.reached {opened closed : Option Handle} (ht : t.Numbered handles)
    (reached : Reached direction t opened closed t') (fits : t'.slots.size ≤ UInt32.size) :
    t'.Numbered (handles ++ opened.toList) := by
  cases reached with
  | other => simpa using ht
  | opened session => exact ht.insert fits
  | used k run =>
    cases hg : t.get? k with
    | none => simpa [withSession_none run hg] using ht
    | some entry =>
      have hr := replaced ht.consistent hg (run entry).value.2
      rw [withSession_some run hg]
      simpa using ht.keep hr.consistent (upcoming_set _) hr.size
  | closed k =>
    cases hg : t.get? k with
    | none => simpa [closeSession_none hg] using ht
    | some entry =>
      obtain ⟨t', removal, hr⟩ := removed ht.consistent hg
      have left : (t.closeSession direction k).value.2 = t' := by simp [closeSession, removal]
      rw [left]
      simpa using ht.keep hr.consistent (upcoming_remove removal) hr.size

/-- The handle issued last bears the number of those issued before it for its slot. -/
theorem Numbered.last (ht : t.Numbered (handles ++ [h])) :
    h = ⟨h.index, .ofNat (handles.countP (·.index = h.index))⟩ := by
  have numbered := ht.inOrder h.index
  have itself : [h].filter (·.index = h.index) = [h] := by simp
  have one : [h].countP (·.index = h.index) = 1 := by simp
  rw [List.filter_append, List.countP_append, itself, one, firstHandles_succ] at numbered
  exact List.singleton_inj.mp (List.append_inj' numbered rfl).2

end SessionTable

namespace Engine

variable {σ τ : Type} {cc : Compressor σ} {dc : Decompressor τ}
  {calls theirs ours rest : List (Call σ τ)} {h : Handle} {n : Nat}

namespace Reply

def compressor? : Reply → Option Handle
  | compressor h => h.map (·.handle)
  | _ => none

def decompressor? : Reply → Option Handle
  | decompressor h => h.map (·.handle)
  | _ => none

theorem compressor?_eq_some_iff {reply : Reply} :
    reply.compressor? = some h ↔ reply = .compressor (some ⟨h⟩) := by
  cases reply with
  | compressor given =>
    cases given with
    | none => simp [compressor?]
    | some k =>
      cases k
      simp [compressor?]
  | _ => simp [compressor?]

theorem decompressor?_eq_some_iff {reply : Reply} :
    reply.decompressor? = some h ↔ reply = .decompressor (some ⟨h⟩) := by
  cases reply with
  | decompressor given =>
    cases given with
    | none => simp [decompressor?]
    | some k =>
      cases k
      simp [decompressor?]
  | _ => simp [decompressor?]

end Reply

/-- The handles that a run of a new engine was given, in order. -/
def handed (cc : Compressor σ) (dc : Decompressor τ) (handle? : Reply → Option Handle)
    (calls : List (Call σ τ)) : List Handle :=
  (serveAll cc dc {} calls).value.1.filterMap handle?

/-- A run of a new engine was given this handle, after `n` others for the same slot; `rest` was
called later. -/
def Opens (cc : Compressor σ) (dc : Decompressor τ) (handle? : Reply → Option Handle)
    (calls : List (Call σ τ)) (h : Handle) (n : Nat) (rest : List (Call σ τ)) : Prop :=
  ∃ before c, calls = before ++ c :: rest ∧
    handle? ((after cc dc {} before).serve cc dc c).value.1 = some h ∧
    (handed cc dc handle? before).countP (·.index = h.index) = n

/-- A run opened a session in this slot after `n` others there, as far as a generation counts, and
has not closed it since. -/
def Occupied (cc : Compressor σ) (dc : Decompressor τ) (handle? : Reply → Option Handle)
    (closing : Handle → Call σ τ) (calls : List (Call σ τ)) (index : UInt32) (n : Nat) : Prop :=
  ∃ h m rest, Opens cc dc handle? calls h m rest ∧ h.index = index ∧
    m % UInt32.size = n % UInt32.size ∧ closing h ∉ rest

theorem replies_snoc (e : Engine σ τ) (calls : List (Call σ τ)) (c : Call σ τ) :
    (e.serveAll cc dc (calls ++ [c])).value.1 =
      (e.serveAll cc dc calls).value.1 ++ [((e.after cc dc calls).serve cc dc c).value.1] := by
  induction calls generalizing e with
  | nil => rfl
  | cons d ds ih => exact congrArg (_ :: ·) (ih (e.next cc dc d))

theorem handed_snoc (handle? : Reply → Option Handle) (calls : List (Call σ τ)) (c : Call σ τ) :
    handed cc dc handle? (calls ++ [c]) = handed cc dc handle? calls ++
      (handle? ((after cc dc {} calls).serve cc dc c).value.1).toList := by
  unfold handed
  rw [replies_snoc, List.filterMap_append]
  cases handed : handle? ((after cc dc {} calls).serve cc dc c).value.1 <;> simp [handed]

section Direction

variable {α : Type} {direction : Direction} {table : Engine σ τ → SessionTable α}
  {handle? : Reply → Option Handle}
  (start : table {} = {}) (fitting : ∀ {e}, Fits e → (table e).slots.size ≤ UInt32.size)
  (effect : ∀ (e : Engine σ τ) c, ∃ closed, (table e).Reached direction
    (handle? (e.serve cc dc c).value.1) closed (table (e.next cc dc c)))

include start fitting effect

theorem numbered_after (fits : (after cc dc {} calls).Fits) :
    (table (after cc dc {} calls)).Numbered (handed cc dc handle? calls) := by
  induction calls using List.reverseRecOn with
  | nil =>
    change (table {}).Numbered []
    rw [start]
    exact .empty
  | append_singleton calls c ih =>
    rw [after_append] at fits ⊢
    rw [handed_snoc]
    obtain ⟨closed, reached⟩ := effect (after cc dc {} calls) c
    exact (ih (Fits.of_after fits)).reached reached (fitting fits)

theorem Opens.handle_eq (opens : Opens cc dc handle? calls h n rest)
    (fits : (after cc dc {} calls).Fits) : h = ⟨h.index, .ofNat n⟩ := by
  obtain ⟨before, c, rfl, answered, rfl⟩ := opens
  rw [List.append_cons, after_append] at fits
  have numbered := numbered_after start fitting effect (Fits.of_after fits)
  rw [handed_snoc, answered] at numbered
  exact numbered.last

/-- Two engines handed out the same handle exactly if they opened as many sessions in its slot. -/
theorem Opens.eq_iff {k : Handle} {m : Nat} {later : List (Call σ τ)}
    (here : Opens cc dc handle? ours k m rest) (ourFits : (after cc dc {} ours).Fits)
    (there : Opens cc dc handle? theirs h n later) (theirFits : (after cc dc {} theirs).Fits) :
    k = h ↔ k.index = h.index ∧ m % UInt32.size = n % UInt32.size := by
  rw [here.handle_eq start fitting effect ourFits, there.handle_eq start fitting effect theirFits]
  have numbers : UInt32.ofNat m = UInt32.ofNat n ↔ m % UInt32.size = n % UInt32.size := by
    rw [← UInt32.toNat_inj, UInt32.toNat_ofNat', UInt32.toNat_ofNat']
  rw [Handle.mk.injEq, numbers]

theorem since_iff_occupied {answer : Reply} (closing : Handle → Call σ τ)
    (hands : ∀ reply, handle? reply = some h ↔ reply = answer)
    (there : Opens cc dc handle? theirs h n rest) (theirFits : (after cc dc {} theirs).Fits)
    (ourFits : (after cc dc {} ours).Fits) :
    Since cc dc answer (closing h) ours ↔ Occupied cc dc handle? closing ours h.index n := by
  constructor
  · rintro ⟨before, c, later, split, answered, kept⟩
    have here : Opens cc dc handle? ours h _ later :=
      ⟨before, c, split, (hands _).mpr answered, rfl⟩
    have same := (here.eq_iff start fitting effect ourFits there theirFits).mp rfl
    exact ⟨h, _, later, here, same.1, same.2, kept⟩
  · rintro ⟨k, m, later, here, index, number, kept⟩
    obtain rfl := (here.eq_iff start fitting effect ourFits there theirFits).mpr ⟨index, number⟩
    obtain ⟨before, c, split, answered, -⟩ := here
    exact ⟨before, c, later, split, (hands _).mp answered, kept⟩

end Direction

theorem reached_compressor? (e : Engine σ τ) (c : Call σ τ) :
    ∃ closed, e.compressors.Reached .compress (e.serve cc dc c).value.1.compressor? closed
      (e.next cc dc c).compressors := by
  obtain ⟨opened, closed, reached, opens, -⟩ := @reached_compressors σ τ cc dc e c
  have same : opened = (e.serve cc dc c).value.1.compressor? :=
    Option.ext fun h => (opens h).trans Reply.compressor?_eq_some_iff.symm
  exact ⟨closed, same ▸ reached⟩

theorem reached_decompressor? (e : Engine σ τ) (c : Call σ τ) :
    ∃ closed, e.decompressors.Reached .decompress (e.serve cc dc c).value.1.decompressor? closed
      (e.next cc dc c).decompressors := by
  obtain ⟨opened, closed, reached, opens, -⟩ := @reached_decompressors σ τ cc dc e c
  have same : opened = (e.serve cc dc c).value.1.decompressor? :=
    Option.ext fun h => (opens h).trans Reply.decompressor?_eq_some_iff.symm
  exact ⟨closed, same ▸ reached⟩

/-- A call is turned down whatever the codecs are, and leaves the engine as it is. -/
def TurnedDown (e : Engine σ τ) (c : Call σ τ) : Prop :=
  ∀ cc dc, (e.serve cc dc c).value = (c.rejection, e)

theorem turnedDown_compressor_iff (cc : Compressor σ) (dc : Decompressor τ)
    (fits : (after cc dc {} calls).Fits) {c : Call σ τ} {h : CompressorHandle}
    (named : c.compressor? = some h) :
    (after cc dc {} calls).TurnedDown c ↔ ¬CompressorOpen cc dc calls h := by
  rw [compressorOpen_iff fits, Option.not_isSome_iff_eq_none]
  exact ⟨fun down => (rejected_compressor_iff named).mp (congrArg Prod.fst (down cc dc)),
    fun gone _ _ => serve_stale_compressor named gone⟩

theorem turnedDown_decompressor_iff (cc : Compressor σ) (dc : Decompressor τ)
    (fits : (after cc dc {} calls).Fits) {c : Call σ τ} {h : DecompressorHandle}
    (named : c.decompressor? = some h) :
    (after cc dc {} calls).TurnedDown c ↔ ¬DecompressorOpen cc dc calls h := by
  rw [decompressorOpen_iff fits, Option.not_isSome_iff_eq_none]
  exact ⟨fun down => (rejected_decompressor_iff named).mp (congrArg Prod.fst (down cc dc)),
    fun gone _ _ => serve_stale_decompressor named gone⟩

/-- For every two runs that need no more slots than there are indices: a call on one engine through
a handle that the other handed out is turned down exactly if the engine that is called has no
session open that it opened itself in this slot, after as many others there. -/
theorem foreign_rejected_iff (cc : Compressor σ) (dc : Decompressor τ)
    (theirs ours : List (Call σ τ)) (theirFits : (after cc dc {} theirs).Fits)
    (ourFits : (after cc dc {} ours).Fits) :
    (∀ h n rest, Opens cc dc Reply.compressor? theirs h n rest →
      ∀ c, Call.compressor? c = some ⟨h⟩ → ((after cc dc {} ours).TurnedDown c ↔
        ¬Occupied cc dc Reply.compressor? (.closeCompressor ⟨·⟩) ours h.index n)) ∧
    (∀ h n rest, Opens cc dc Reply.decompressor? theirs h n rest →
      ∀ c, Call.decompressor? c = some ⟨h⟩ → ((after cc dc {} ours).TurnedDown c ↔
        ¬Occupied cc dc Reply.decompressor? (.closeDecompressor ⟨·⟩) ours h.index n)) := by
  refine ⟨fun h n rest there c named => ?_, fun h n rest there c named => ?_⟩
  · rw [turnedDown_compressor_iff cc dc ourFits named]
    exact not_congr (since_iff_occupied rfl (fun fits => fits.1) reached_compressor?
      (.closeCompressor ⟨·⟩) (fun _ => Reply.compressor?_eq_some_iff) there theirFits ourFits)
  · rw [turnedDown_decompressor_iff cc dc ourFits named]
    exact not_congr (since_iff_occupied rfl (fun fits => fits.2) reached_decompressor?
      (.closeDecompressor ⟨·⟩) (fun _ => Reply.decompressor?_eq_some_iff) there theirFits ourFits)

def reopened : List (Call Unit Unit) :=
  [.openCompressor (some ()), .closeCompressor ⟨⟨0, 0⟩⟩, .openCompressor (some ())]

/-- Both engines have closed the first compressor of their first slot and opened a second one. -/
theorem foreign_rejected_reopened :
    let cc := Echo.compressor 8
    let dc := Echo.decompressor 8
    let e := after cc dc {} (interleaved ++ [.openCompressor (some ())])
    Opens cc dc Reply.compressor? reopened ⟨0, 1⟩ 1 [] ∧
      ¬e.TurnedDown (.compress ⟨⟨0, 1⟩⟩ .unset .unset .more) ∧
      Opens cc dc Reply.compressor? reopened ⟨0, 0⟩ 0 reopened.tail ∧
      ¬Occupied cc dc Reply.compressor? (.closeCompressor ⟨·⟩)
        (interleaved ++ [.openCompressor (some ())]) 0 0 := by
  intro cc dc e
  have second : Opens cc dc Reply.compressor? reopened ⟨0, 1⟩ 1 [] :=
    ⟨reopened.take 2, .openCompressor (some ()), rfl, rfl, rfl⟩
  have first : Opens cc dc Reply.compressor? reopened ⟨0, 0⟩ 0 reopened.tail :=
    ⟨[], .openCompressor (some ()), rfl, rfl, rfl⟩
  obtain ⟨compressors, -⟩ := foreign_rejected_iff cc dc reopened
    (interleaved ++ [.openCompressor (some ())]) ⟨by decide, by decide⟩ ⟨by decide, by decide⟩
  have held : Occupied cc dc Reply.compressor? (.closeCompressor ⟨·⟩)
      (interleaved ++ [.openCompressor (some ())]) 0 1 :=
    ⟨⟨0, 1⟩, 1, [], ⟨interleaved, .openCompressor (some ()), rfl, rfl, rfl⟩, rfl, rfl,
      List.not_mem_nil⟩
  refine ⟨second, fun down => ?_, first, ?_⟩
  · exact (compressors _ _ _ second _ rfl).mp down held
  · exact (compressors _ _ _ first (.closeCompressor ⟨⟨0, 0⟩⟩) rfl).mp fun _ _ => rfl

/-- An engine that was given one compressor, and one that opened a compressor of its own: the
handle of the one steps and closes the session of the other. -/
theorem foreign_not_rejected :
    let cc := Echo.compressor 8
    let dc := Echo.decompressor 8
    let theirs : List (Call Unit Unit) := [.openCompressor (some ())]
    let e := after cc dc {} [.openDecompressor (some ()), .openCompressor (some ())]
    let step : Call Unit Unit := .compress ⟨⟨0, 0⟩⟩ (.full ⟨#[0, 0]⟩) (.full ⟨#[1, 2, 3]⟩) .more
    let close : Call Unit Unit := .closeCompressor ⟨⟨0, 0⟩⟩
    Opens cc dc Reply.compressor? theirs ⟨0, 0⟩ 0 [] ∧
      (e.serve cc dc step).value.1 =
        .stepped (.ok (⟨.hint 1, ⟨2, 2⟩⟩, .full ⟨#[1, 2]⟩)) ∧ ¬e.TurnedDown step ∧
      (e.serve cc dc close).value.1 = .closed (.ok ()) ∧ ¬e.TurnedDown close ∧
      e.openSessions = 2 ∧ (e.next cc dc close).openSessions = 1 := by
  intro cc dc theirs e step close
  have stepped : (e.serve cc dc step).value.1 =
      .stepped (.ok (⟨.hint 1, ⟨2, 2⟩⟩, .full ⟨#[1, 2]⟩)) := by rfl
  refine ⟨⟨[], .openCompressor (some ()), rfl, rfl, rfl⟩, stepped, fun down => ?_, rfl,
    fun down => ?_, rfl, rfl⟩
  · have turned := congrArg Prod.fst (down cc dc)
    rw [stepped] at turned
    cases turned
  · cases congrArg Prod.fst (down cc dc)

end Engine

end Sluice
