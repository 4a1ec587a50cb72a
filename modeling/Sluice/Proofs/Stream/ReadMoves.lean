import Sluice.Proofs.Stream.Reads
import Sluice.Proofs.Turns

namespace Sluice.DecompressReader

open Logged

variable {τ : Type} {codec : Decompressor τ} {r : DecompressReader τ} {shown buf : ByteArray}

/-- A codec step on behalf of a reader. -/
structure Move where
  shown : ByteArray
  /-- What the codec consumed of the bytes shown. -/
  taken : ByteArray
  /-- What the codec produced. -/
  given : ByteArray
  code : Word

def move (codec : Decompressor τ) (r : DecompressReader τ) (shown buf : ByteArray) : Move :=
  let a := r.answer codec shown buf
  ⟨shown, a.taken ⟨shown, 0⟩, a.given (.whole buf), a.code⟩

def moveOf (codec : Decompressor τ) (r : DecompressReader τ) (buf : ByteArray) : Option Move :=
  match r.source.fill with
  | (.error _, _) => none
  | (.ok shown, _) =>
    if shown.isEmpty && r.atFrameBoundary then none else some (r.move codec shown buf)

/-- The reader after a codec step. A step that fails leaves the hint as it was. -/
def stepped (codec : Decompressor τ) (r : DecompressReader τ) (shown buf : ByteArray) :
    DecompressReader τ :=
  let m := r.move codec shown buf
  { r.decoded codec shown buf with pending := if m.code.isError then r.pending else m.code }

/-- What a codec step over the bytes shown means for the read. -/
inductive Verdict (codec : Decompressor τ) (r : DecompressReader τ) (shown buf : ByteArray) :
    Turn (DecompressReader τ × ByteArray) (Reply τ) → Prop
  | failed (error : (r.move codec shown buf).code.isError = true) :
    Verdict codec r shown buf
      (.done (.error (.ofFault (.codec (r.move codec shown buf).code
        (describe (r.move codec shown buf).code))), r.stepped codec shown buf))
  | piece (fine : (r.move codec shown buf).code.isError = false)
    (produced : (r.answer codec shown buf).output.pos ≠ 0) :
    Verdict codec r shown buf
      (.done (.ok (r.move codec shown buf).given, r.stepped codec shown buf))
  | truncated (fine : (r.move codec shown buf).code.isError = false)
    (silent : (r.answer codec shown buf).output.pos = 0) (dry : shown = .empty) :
    Verdict codec r shown buf (.done (.error .truncated, r.stepped codec shown buf))
  | stalled (fine : (r.move codec shown buf).code.isError = false)
    (silent : (r.answer codec shown buf).output.pos = 0) (shows : shown ≠ .empty)
    (still : (r.answer codec shown buf).inPos = 0) :
    Verdict codec r shown buf (.done (.error .stalled, r.stepped codec shown buf))
  | again (fine : (r.move codec shown buf).code.isError = false)
    (silent : (r.answer codec shown buf).output.pos = 0) (shows : shown ≠ .empty)
    (moved : (r.answer codec shown buf).inPos ≠ 0) :
    Verdict codec r shown buf
      (.again (r.stepped codec shown buf, (r.answer codec shown buf).output.dst))

theorem stepped_of_fine (fine : (r.move codec shown buf).code.isError = false) :
    r.stepped codec shown buf = r.decoded codec shown buf := by
  simp only [stepped, fine, Bool.false_eq_true, if_false]
  rfl

theorem decode_failed (error : (r.move codec shown buf).code.isError = true) :
    (r.decode codec shown buf).value =
      .done (.error (.ofFault (.codec (r.move codec shown buf).code
        (describe (r.move codec shown buf).code))), r.stepped codec shown buf) := by
  have after : r.stepped codec shown buf =
      { r.decoded codec shown buf with pending := r.pending } := by
    simp only [stepped, error, if_true]
  rw [after]
  unfold move answer at error
  simp only [decode, Answer.settle, value_bind, value_pure, Status.ofCode, error, if_true,
    Status.toExcept]
  rfl

theorem verdict_decode (codec : Decompressor τ) (r : DecompressReader τ) (shown buf : ByteArray) :
    Verdict codec r shown buf (r.decode codec shown buf).value := by
  cases hc : (r.move codec shown buf).code.isError with
  | true =>
    rw [decode_failed hc]
    exact .failed hc
  | false =>
    rw [decode_value hc, ← stepped_of_fine hc]
    by_cases silent : (r.answer codec shown buf).output.pos = 0
    · rw [if_neg (not_not_intro silent)]
      by_cases dry : shown = .empty
      · rw [if_pos (isEmpty_iff.mpr dry)]
        exact .truncated hc silent dry
      · rw [if_neg (mt isEmpty_iff.mp dry)]
        by_cases still : (r.answer codec shown buf).inPos = 0
        · rw [if_pos still]
          exact .stalled hc silent dry still
        · rw [if_neg still]
          exact .again hc silent dry still
    · rw [if_pos silent]
      exact .piece hc silent

/-- All that a turn can come to, with the codec step behind it. -/
inductive Round (codec : Decompressor τ) (r : DecompressReader τ) (buf : ByteArray) :
    Option Move → Turn (DecompressReader τ × ByteArray) (Reply τ) → Prop
  | unfilled {f : Failure} {source : Source} (fill : r.source.fill = (.error f, source)) :
    Round codec r buf none (.done (.error f, { r with source }))
  | ended {source : Source} (fill : r.source.fill = (.ok .empty, source)) (closed : r.pending = 0) :
    Round codec r buf none (.done (.ok .empty, { r with source }))
  | stepped {shown : ByteArray} {source : Source}
    {t : Turn (DecompressReader τ × ByteArray) (Reply τ)}
    (fill : r.source.fill = (.ok shown, source)) (goes : shown = .empty → r.pending ≠ 0)
    (verdict : Verdict codec { r with source } shown buf t) :
    Round codec r buf (some (r.move codec shown buf)) t

theorem idle_iff :
    (shown.isEmpty && r.atFrameBoundary) = true ↔ shown = .empty ∧ r.pending = 0 := by
  rw [Bool.and_eq_true, isEmpty_iff]
  exact and_congr_right fun _ => beq_iff_eq

/-- What a turn finds: a source that fails, one that shows nothing while no frame is open, or
bytes to step over. -/
theorem fill_cases (r : DecompressReader τ) :
    (∃ f source, r.source.fill = (.error f, source)) ∨
    (∃ source, r.source.fill = (.ok .empty, source) ∧ r.pending = 0) ∨
    ∃ shown source, r.source.fill = (.ok shown, source) ∧ (shown = .empty → r.pending ≠ 0) := by
  cases hf : r.source.fill with
  | mk result source =>
    cases result with
    | error f => exact .inl ⟨f, source, rfl⟩
    | ok shown =>
      by_cases ending : shown = .empty ∧ r.pending = 0
      · obtain ⟨rfl, closed⟩ := ending
        exact .inr (.inl ⟨source, rfl, closed⟩)
      · exact .inr (.inr ⟨shown, source, rfl, fun dry closed => ending ⟨dry, closed⟩⟩)

section

variable {f : Failure} {source : Source} (codec : Decompressor τ) (buf : ByteArray)

theorem turn_unfilled (fill : r.source.fill = (.error f, source)) :
    r.turn codec buf = pure (.done (.error f, { r with source })) ∧ r.moveOf codec buf = none := by
  unfold turn moveOf
  rw [fill]
  exact ⟨rfl, rfl⟩

theorem turn_ended (fill : r.source.fill = (.ok .empty, source)) (closed : r.pending = 0) :
    r.turn codec buf = pure (.done (.ok .empty, { r with source })) ∧
      r.moveOf codec buf = none := by
  have idle : ∀ s : DecompressReader τ, s.pending = 0 →
      (ByteArray.empty.isEmpty && s.atFrameBoundary) = true := fun s h => idle_iff.mpr ⟨rfl, h⟩
  unfold turn moveOf
  rw [fill]
  exact ⟨if_pos (idle { r with source } closed), if_pos (idle r closed)⟩

theorem turn_stepped (fill : r.source.fill = (.ok shown, source))
    (goes : shown = .empty → r.pending ≠ 0) :
    r.turn codec buf = decode codec { r with source } shown buf ∧
      r.moveOf codec buf = some (r.move codec shown buf) := by
  have busy : ∀ s : DecompressReader τ, s.pending = r.pending →
      ¬(shown.isEmpty && s.atFrameBoundary) = true := by
    intro s same idle
    obtain ⟨dry, closed⟩ := idle_iff.mp idle
    exact goes dry (same ▸ closed)
  unfold turn moveOf
  rw [fill]
  exact ⟨if_neg (busy { r with source } rfl), if_neg (busy r rfl)⟩

end

theorem round (codec : Decompressor τ) (r : DecompressReader τ) (buf : ByteArray) :
    Round codec r buf (r.moveOf codec buf) (r.turn codec buf).value := by
  rcases r.fill_cases with ⟨f, source, fill⟩ | ⟨source, fill, closed⟩ | ⟨shown, source, fill, goes⟩
  · obtain ⟨turn, none⟩ := turn_unfilled codec buf fill
    rw [turn, none]
    exact .unfilled fill
  · obtain ⟨turn, none⟩ := turn_ended codec buf fill closed
    rw [turn, none]
    exact .ended fill closed
  · obtain ⟨turn, some⟩ := turn_stepped codec buf fill goes
    rw [turn, some]
    exact .stepped fill goes (verdict_decode ..)

abbrev attempt (codec : Decompressor τ) (p : DecompressReader τ × ByteArray) :
    Logged (Turn (DecompressReader τ × ByteArray) (Reply τ)) :=
  p.1.turn codec p.2

/-- The states in which a read takes a turn. -/
def readStates (codec : Decompressor τ) (r : DecompressReader τ) (buf : ByteArray) :
    List (DecompressReader τ × ByteArray) :=
  match h : (r.turn codec buf).value with
  | .done _ => [(r, buf)]
  | .again (r', buf') =>
    have := left_turn h
    (r, buf) :: r'.readStates codec buf'
termination_by r.source.left

theorem turns_readFrom (seen : Array Event) :
    Turns (attempt codec) (r, buf) (r.readStates codec buf) (readFrom codec seen r buf).value := by
  fun_induction readFrom codec seen r buf with
  | case1 seen r buf turned answer =>
    rename_i done
    rw [readStates]
    split
    · rename_i other
      exact .done done
    · rename_i again
      rw [done] at again
      cases again
  | case2 seen r buf turned r' buf' again shorter ih =>
    rw [readStates]
    split
    · rename_i done
      rw [again] at done
      cases done
    · rename_i next
      rw [again] at next
      cases next
      exact .again again ih

theorem turns_read (codec : Decompressor τ) (r : DecompressReader τ) (room : buf ≠ .empty) :
    Turns (attempt codec) (r, buf) (r.readStates codec buf) (r.read codec buf).value := by
  unfold read
  rw [if_neg (mt isEmpty_iff.mp room)]
  exact turns_readFrom _

def movesFrom (codec : Decompressor τ) (ps : List (DecompressReader τ × ByteArray)) : List Move :=
  ps.filterMap fun p => p.1.moveOf codec p.2

def readMoves (codec : Decompressor τ) (r : DecompressReader τ) (buf : ByteArray) : List Move :=
  if buf.isEmpty then [] else movesFrom codec (r.readStates codec buf)

theorem readMoves_of_room (room : buf ≠ .empty) :
    r.readMoves codec buf = movesFrom codec (r.readStates codec buf) :=
  if_neg (mt isEmpty_iff.mp room)

def readAllMoves (codec : Decompressor τ) (r : DecompressReader τ) : List ByteArray → List Move
  | [] => []
  | buf :: bufs => r.readMoves codec buf ++ (r.read codec buf).value.2.readAllMoves codec bufs

theorem movesFrom_append (ps qs : List (DecompressReader τ × ByteArray)) :
    movesFrom codec (ps ++ qs) = movesFrom codec ps ++ movesFrom codec qs :=
  List.filterMap_append

theorem movesFrom_singleton (p : DecompressReader τ × ByteArray) :
    movesFrom codec [p] = (p.1.moveOf codec p.2).toList := by
  unfold movesFrom
  cases h : p.1.moveOf codec p.2 <;> simp [h]

theorem movesFrom_cons (p : DecompressReader τ × ByteArray)
    (ps : List (DecompressReader τ × ByteArray)) :
    movesFrom codec (p :: ps) = (p.1.moveOf codec p.2).toList ++ movesFrom codec ps := by
  rw [← movesFrom_singleton, ← movesFrom_append]
  rfl

def after : Turn (DecompressReader τ × ByteArray) (Reply τ) → DecompressReader τ
  | .again (r, _) => r
  | .done (_, r) => r

/-- Turns that lead from one reader to another, with their codec steps. -/
inductive Trail (codec : Decompressor τ) :
    DecompressReader τ → List Move → DecompressReader τ → Prop
  | refl (r : DecompressReader τ) : Trail codec r [] r
  | round {r r' : DecompressReader τ} {buf : ByteArray} {m : Option Move}
    {t : Turn (DecompressReader τ × ByteArray) (Reply τ)} {ms : List Move} (room : buf ≠ .empty)
    (first : Round codec r buf m t) (rest : Trail codec (after t) ms r') :
    Trail codec r (m.toList ++ ms) r'

theorem Trail.trans {r' r'' : DecompressReader τ} {ms ns : List Move} (first : Trail codec r ms r')
    (second : Trail codec r' ns r'') : Trail codec r (ms ++ ns) r'' := by
  induction first with
  | refl r => exact second
  | round room first rest ih =>
    rw [List.append_assoc]
    exact .round room first (ih second)

theorem Trail.single {m : Option Move} {t : Turn (DecompressReader τ × ByteArray) (Reply τ)}
    (room : buf ≠ .empty) (h : Round codec r buf m t) : Trail codec r m.toList (after t) := by
  have := Trail.round room h (.refl _)
  rwa [List.append_nil] at this

/-- A step after which a read goes on. -/
structure Move.GoesOn (m : Move) : Prop where
  fine : m.code.isError = false
  shown : m.shown ≠ .empty
  taken : m.taken ≠ .empty
  given : m.given = .empty

theorem output_ne_empty (room : buf ≠ .empty) :
    (r.answer codec shown buf).output.dst ≠ .empty := by
  intro none
  have size := (r.answer codec shown buf).output.size_dst
  rw [none] at size
  exact room (ByteArray.size_eq_zero_iff.mp size.symm)

theorem given_eq_empty_iff (room : buf ≠ .empty) :
    (r.move codec shown buf).given = .empty ↔ (r.answer codec shown buf).output.pos = 0 := by
  have given : (r.move codec shown buf).given =
      (r.answer codec shown buf).output.dst.extract 0 (r.answer codec shown buf).output.pos := rfl
  rw [given]
  constructor
  · intro none
    by_cases some : (r.answer codec shown buf).output.pos = 0
    · exact some
    · exact absurd none (extract_ne_empty (output_ne_empty room) some)
  · intro zero
    rw [zero]
    exact ByteArray.extract_eq_empty_iff.mpr (Nat.zero_le _)

/-- A turn that asks for another leaves room, and has taken a step after which a read goes on. -/
theorem Round.again {m : Option Move} {p : DecompressReader τ × ByteArray}
    (h : Round codec r buf m (.again p)) (room : buf ≠ .empty) :
    p.2 ≠ .empty ∧ ∀ n ∈ m, n.GoesOn := by
  cases h with
  | stepped fill goes verdict =>
    cases verdict with
    | again fine silent shows moved =>
      refine ⟨output_ne_empty room, ?_⟩
      rintro n ⟨⟩
      exact ⟨fine, shows, extract_ne_empty shows moved, (given_eq_empty_iff room).mpr silent⟩

theorem split_turns {p : DecompressReader τ × ByteArray}
    {ps : List (DecompressReader τ × ByteArray)} {answer : Reply τ}
    (t : Turns (attempt codec) p ps answer) (room : p.2 ≠ .empty) :
    ∃ before last, ps = before ++ [last] ∧ last.2 ≠ .empty ∧
      Trail codec p.1 (movesFrom codec before) last.1 ∧
      (∀ m ∈ movesFrom codec before, m.GoesOn) ∧
      Round codec last.1 last.2 (last.1.moveOf codec last.2) (.done answer) := by
  induction t with
  | @done p answer done =>
    have first := round codec p.1 p.2
    rw [done] at first
    exact ⟨[], p, rfl, room, .refl _, nofun, first⟩
  | @again p p' ps answer turn rest ih =>
    have first := round codec p.1 p.2
    rw [turn] at first
    obtain ⟨room', goesOn⟩ := first.again room
    obtain ⟨before, last, rfl, space, trail, others, answered⟩ := ih room'
    refine ⟨p :: before, last, rfl, space, ?_, ?_, answered⟩
    · rw [movesFrom_cons]
      exact .round room first trail
    · rw [movesFrom_cons]
      intro m hm
      rcases List.mem_append.mp hm with own | other
      · exact goesOn m (Option.mem_toList.mp own)
      · exact others m other

theorem trail_read (codec : Decompressor τ) (r : DecompressReader τ) (buf : ByteArray) :
    Trail codec r (r.readMoves codec buf) (r.read codec buf).value.2 := by
  by_cases room : buf = .empty
  · subst room
    exact .refl r
  · obtain ⟨before, last, states, space, trail, -, answered⟩ :=
      split_turns (turns_read codec r room) room
    rw [readMoves_of_room room, states, movesFrom_append, movesFrom_singleton]
    exact trail.trans (.single space answered)

theorem trail_readAll (codec : Decompressor τ) (r : DecompressReader τ) (bufs : List ByteArray) :
    Trail codec r (r.readAllMoves codec bufs) (r.readAll codec bufs).2 := by
  induction bufs generalizing r with
  | nil => exact .refl r
  | cons buf bufs ih => exact (trail_read codec r buf).trans (ih _)

/-- The latest status that was no error, or the hint from before. -/
def latest (hint : Word) (ms : List Move) : Word :=
  ms.foldl (fun hint m => if m.code.isError then hint else m.code) hint

theorem latest_append (hint : Word) (ms ns : List Move) :
    latest hint (ms ++ ns) = latest (latest hint ms) ns :=
  List.foldl_append

theorem latest_concat (hint : Word) (ms : List Move) {m : Move} (fine : m.code.isError = false) :
    latest hint (ms ++ [m]) = m.code := by
  rw [latest_append]
  change (if m.code.isError then _ else _) = m.code
  rw [fine]
  rfl

theorem Round.pending {m : Option Move} {t : Turn (DecompressReader τ × ByteArray) (Reply τ)}
    (h : Round codec r buf m t) : (after t).pending = latest r.pending m.toList := by
  cases h with
  | unfilled => rfl
  | ended => rfl
  | stepped fill goes verdict => cases verdict <;> rfl

/-- A reader remembers the latest status that was no error. -/
theorem Trail.pending {r' : DecompressReader τ} {ms : List Move} (t : Trail codec r ms r') :
    r'.pending = latest r.pending ms := by
  induction t with
  | refl r => rfl
  | round room first rest ih => rw [ih, first.pending, latest_append]

end Sluice.DecompressReader
