import Sluice.Proofs.Step
import Sluice.Proofs.Stream.Endings

namespace Sluice

namespace Source

variable {s s' : Source} {shown : ByteArray}

theorem foldl_append_bytes (queue : List Item) (a : ByteArray) :
    queue.foldl (fun acc i => acc ++ i.bytes) a = a ++ joined (queue.map Item.bytes) := by
  induction queue generalizing a with
  | nil => simp
  | cons i queue ih =>
    rw [List.foldl_cons, ih, List.map_cons, joined_cons, ByteArray.append_assoc]

theorem rest_eq_joined (s : Source) : s.rest = joined (s.queue.map Item.bytes) := by
  unfold rest
  rw [foldl_append_bytes, ByteArray.empty_append]

theorem size_rest (s : Source) : s.rest.size = s.left := by
  rw [rest_eq_joined]
  unfold left
  induction s.queue with
  | nil => rfl
  | cons i queue ih =>
    rw [List.map_cons, joined_cons, ByteArray.size_append, ih, totalSize_cons]
    cases i <;> rfl

theorem joined_dropWhile_isSpent (queue : List Item) :
    joined ((queue.dropWhile Item.isSpent).map Item.bytes) = joined (queue.map Item.bytes) := by
  induction queue with
  | nil => rfl
  | cons i queue ih =>
    rw [List.dropWhile_cons]
    split
    · rename_i spent
      cases i with
      | chunk bytes =>
        have none : bytes = .empty := isEmpty_iff.mp spent
        rw [ih, List.map_cons, joined_cons, Item.bytes, none, ByteArray.empty_append]
      | gap g => cases spent
    · rfl

/-- Consuming nothing drops an empty chunk at most. -/
theorem rest_consume_zero (s : Source) : (s.consume 0).rest = s.rest := by
  rw [rest_eq_joined, rest_eq_joined]
  unfold consume
  split
  · rename_i bytes queue here
    rw [here, List.map_cons, joined_cons, Item.bytes]
    split
    · rw [List.map_cons, joined_cons, Item.bytes, ByteArray.extract_zero_size]
    · have none : bytes = .empty := ByteArray.size_eq_zero_iff.mp (by omega)
      rw [none, ByteArray.empty_append]
  · rfl

/-- A source with `bytes` left shows the next of them; those that are consumed it has no more. -/
structure Offers (s : Source) (bytes shown : ByteArray) : Prop where
  part : ∃ more, bytes = shown ++ more
  kept : s.rest = bytes
  consumed : ∀ n, n ≤ shown.size → bytes = shown.extract 0 n ++ (s.consume n).rest

theorem offers_empty (s : Source) : s.Offers s.rest .empty := by
  refine ⟨⟨s.rest, ByteArray.empty_append.symm⟩, rfl, fun n le => ?_⟩
  obtain rfl : n = 0 := Nat.le_zero.mp le
  rw [rest_consume_zero]
  exact ByteArray.empty_append.symm

theorem offers_chunk {queue : List Item} (h : s.queue = .chunk shown :: queue) :
    s.Offers s.rest shown := by
  have whole : s.rest = shown ++ joined (queue.map Item.bytes) := by
    rw [rest_eq_joined, h]
    rfl
  refine ⟨⟨_, whole⟩, rfl, fun n le => ?_⟩
  rw [whole, rest_eq_joined]
  unfold consume
  rw [h]
  dsimp only
  split
  · rw [List.map_cons, joined_cons, Item.bytes, ← ByteArray.append_assoc, extract_append_rest le]
  · have all : n = shown.size := by omega
    rw [all, ByteArray.extract_zero_size]

theorem rest_fill (s : Source) : s.fill.2.rest = s.rest := by
  unfold fill
  dsimp only
  split
  · rfl
  · have part := joined_dropWhile_isSpent s.queue
    rw [rest_eq_joined, rest_eq_joined, ← part]
    unfold front
    split <;> rename_i split <;> rw [split]
    rename_i g queue
    exact (ByteArray.empty_append (b := joined (queue.map Item.bytes))).symm

theorem fill_offers (h : s.fill = (.ok shown, s')) : s'.Offers s.rest shown := by
  have kept : s'.rest = s.rest := by
    rw [← rest_fill s, h]
  rw [← kept]
  unfold fill at h
  dsimp only at h
  split at h
  · rename_i g here
    cases g with
    | dry =>
      cases h
      exact offers_empty _
    | fail f => cases h
  · unfold front at h
    split at h
    · cases h
      exact offers_empty _
    · cases h
      exact offers_chunk rfl
    · rename_i g queue split
      cases g with
      | dry =>
        cases h
        exact offers_empty _
      | fail f => cases h

end Source

namespace DecompressReader

open Logged

variable {τ : Type} {codec : Decompressor τ} {r r' : DecompressReader τ} {shown buf : ByteArray}

/-- Steps over some bytes, and what they leave of them: each step is shown the bytes that come
next, and consumes the first of those. -/
inductive Intake : ByteArray → List Move → ByteArray → Prop
  | nil (bytes : ByteArray) : Intake bytes [] bytes
  | cons {bytes more unread later rest : ByteArray} {m : Move} {ms : List Move}
    (next : bytes = m.shown ++ more) (first : m.shown = m.taken ++ unread)
    (left : bytes = m.taken ++ later) (others : Intake later ms rest) :
    Intake bytes (m :: ms) rest

theorem Intake.trans {bytes middle rest : ByteArray} {ms ns : List Move}
    (h : Intake bytes ms middle) (h' : Intake middle ns rest) : Intake bytes (ms ++ ns) rest := by
  induction h with
  | nil bytes => exact h'
  | cons next first left others ih => exact .cons next first left (ih h')

theorem Intake.whole {bytes rest : ByteArray} {ms : List Move} (h : Intake bytes ms rest) :
    bytes = joined (ms.map (·.taken)) ++ rest := by
  induction h with
  | nil bytes => simp
  | cons next first left others ih =>
    rw [List.map_cons, joined_cons, ByteArray.append_assoc, ← ih]
    exact left

/-- Every step is shown what comes after the bytes that the steps before it consumed. -/
theorem Intake.each {bytes rest : ByteArray} {before after : List Move} {m : Move}
    (h : Intake bytes (before ++ m :: after) rest) :
    (∃ more, bytes = joined (before.map (·.taken)) ++ (m.shown ++ more)) ∧
      ∃ unread, m.shown = m.taken ++ unread := by
  induction before generalizing bytes with
  | nil =>
    cases h with
    | cons next first left others => exact ⟨⟨_, by simpa using next⟩, _, first⟩
  | cons n before ih =>
    cases h with
    | cons next first left others =>
      obtain ⟨⟨more, part⟩, unread⟩ := ih others
      refine ⟨⟨more, ?_⟩, unread⟩
      rw [List.map_cons, joined_cons, ByteArray.append_assoc, ← part]
      exact left

/-- What a codec step consumes of the bytes shown, the source has no more. -/
theorem stepped_intake (obeys : codec.Obeys) {bytes : ByteArray}
    (offers : r.source.Offers bytes shown) (buf : ByteArray) :
    Intake bytes [r.move codec shown buf] (r.stepped codec shown buf).source.rest ∧
      (r.stepped codec shown buf).totalIn =
        r.totalIn + (r.move codec shown buf).taken.size := by
  have within : (r.answer codec shown buf).Within ⟨shown, 0⟩ (.whole buf) :=
    obeys _ _ _ (Nat.zero_le _) (OutWindow.whole_inside buf)
  obtain ⟨more, part⟩ := offers.part
  have inPos : (r.answer codec shown buf).inPos ≤ shown.size := within.inPos_le
  refine ⟨.cons part (extract_append_rest inPos).symm (offers.consumed _ inPos) (.nil _), ?_⟩
  exact congrArg (r.totalIn + ·) within.size_taken.symm

theorem Round.intake {m : Option Move} {t : Turn (DecompressReader τ × ByteArray) (Reply τ)}
    (h : Round codec r buf m t) (obeys : codec.Obeys) :
    Intake r.source.rest m.toList (after t).source.rest ∧
      (after t).totalIn = r.totalIn + (joined (m.toList.map (·.taken))).size := by
  cases h with
  | unfilled fill =>
    have kept := r.source.rest_fill
    rw [fill] at kept
    exact ⟨kept ▸ .nil _, rfl⟩
  | ended fill closed =>
    have kept := r.source.rest_fill
    rw [fill] at kept
    exact ⟨kept ▸ .nil _, rfl⟩
  | @stepped shown source t fill goes verdict =>
    have step := stepped_intake (r := { r with source }) obeys (Source.fill_offers fill) buf
    have alone : joined [(r.move codec shown buf).taken] = (r.move codec shown buf).taken :=
      ByteArray.append_empty
    rw [Option.toList_some, List.map_singleton, alone]
    cases verdict <;> exact step

theorem Trail.intake {ms : List Move} (t : Trail codec r ms r') (obeys : codec.Obeys) :
    Intake r.source.rest ms r'.source.rest ∧
      r'.totalIn = r.totalIn + (joined (ms.map (·.taken))).size := by
  induction t with
  | refl r => exact ⟨.nil _, rfl⟩
  | round room first rest ih =>
    obtain ⟨head, count⟩ := first.intake obeys
    obtain ⟨tail, later⟩ := ih
    refine ⟨head.trans tail, ?_⟩
    rw [later, count, List.map_append, joined_append, ByteArray.size_append, Nat.add_assoc]

/-- A turn that answers with bytes took a step that produced them and did not fail. -/
theorem Round.piece {m : Option Move} {answer : Reply τ} {piece : ByteArray}
    (h : Round codec r buf m (.done answer)) (ok : answer.1 = .ok piece)
    (some : piece ≠ .empty) : ∃ n ∈ m, n.given = piece ∧ n.code.isError = false := by
  cases h with
  | unfilled fill => cases ok
  | ended fill closed =>
    cases ok
    exact absurd rfl some
  | stepped fill goes verdict =>
    cases verdict with
    | piece fine produced =>
      cases ok
      exact ⟨_, rfl, rfl, fine⟩
    | _ => cases ok

/-- A read that returns bytes returns those of its last step; the steps before gave none. -/
theorem piece_of_read {piece : ByteArray} (ok : (r.read codec buf).value.1 = .ok piece)
    (some : piece ≠ .empty) :
    ∃ earlier last, r.readMoves codec buf = earlier ++ [last] ∧ last.given = piece ∧
      last.code.isError = false ∧ ∀ m ∈ earlier, m.given = .empty := by
  have room : buf ≠ .empty := by
    rintro rfl
    cases ok
    exact some rfl
  obtain ⟨before, last, states, space, -, goesOn, answered⟩ :=
    split_turns (turns_read codec r room) room
  obtain ⟨n, here, given, fine⟩ := answered.piece ok some
  refine ⟨movesFrom codec before, n, ?_, given, fine, fun m hm => (goesOn m hm).given⟩
  rw [readMoves_of_room room, states, movesFrom_append, movesFrom_singleton,
    Option.mem_def.mp here, Option.toList_some]

def watching (r : DecompressReader τ) (seen : List Sight) : DecompressReader (τ × List Sight) :=
  { source := r.source, session := (r.session, seen), pending := r.pending
    totalIn := r.totalIn, totalOut := r.totalOut }

def watchingTurn (seen : List Sight) :
    Turn (DecompressReader τ × ByteArray) (Reply τ) →
      Turn (DecompressReader (τ × List Sight) × ByteArray) (Reply (τ × List Sight))
  | .again (r, buf) => .again (r.watching seen, buf)
  | .done (answer, r) => .done (answer, r.watching seen)

/-- What the codec sees in a step of a read: the bytes shown, and the whole buffer. -/
def Move.sight (buf : ByteArray) (m : Move) : Sight := ⟨⟨m.shown, 0⟩, _, .whole buf, none⟩

theorem decode_watching (codec : Decompressor τ) (r : DecompressReader τ) (shown buf : ByteArray)
    (seen : List Sight) :
    ((r.watching seen).decode codec.watched shown buf).value =
      watchingTurn (seen ++ [(r.move codec shown buf).sight buf])
        (r.decode codec shown buf).value := by
  cases hc : (r.move codec shown buf).code.isError with
  | true =>
    have hc' : ((r.watching seen).move codec.watched shown buf).code.isError = true := hc
    rw [decode_failed hc, decode_failed hc']
    rfl
  | false =>
    have hc' : ((r.watching seen).answer codec.watched shown buf).code.isError = false := hc
    rw [decode_value hc, decode_value hc']
    simp only [apply_ite (watchingTurn _)]
    rfl

theorem turn_watching (codec : Decompressor τ) (r : DecompressReader τ) (buf : ByteArray)
    (seen : List Sight) :
    ((r.watching seen).turn codec.watched buf).value =
      watchingTurn (seen ++ (r.moveOf codec buf).toList.map (·.sight buf))
        (r.turn codec buf).value := by
  have idle : seen ++ (none : Option Move).toList.map (·.sight buf) = seen := List.append_nil _
  rcases r.fill_cases with ⟨f, source, fill⟩ | ⟨source, fill, closed⟩ | ⟨shown, source, fill, goes⟩
  · have fill' : (r.watching seen).source.fill = (.error f, source) := fill
    rw [(turn_unfilled codec.watched buf fill').1, (turn_unfilled codec buf fill).1,
      (turn_unfilled codec buf fill).2, idle]
    rfl
  · have fill' : (r.watching seen).source.fill = (.ok .empty, source) := fill
    have closed' : (r.watching seen).pending = 0 := closed
    rw [(turn_ended codec.watched buf fill' closed').1, (turn_ended codec buf fill closed).1,
      (turn_ended codec buf fill closed).2, idle]
    rfl
  · have fill' : (r.watching seen).source.fill = (.ok shown, source) := fill
    have goes' : shown = .empty → (r.watching seen).pending ≠ 0 := goes
    rw [(turn_stepped codec.watched buf fill' goes').1, (turn_stepped codec buf fill goes).1,
      (turn_stepped codec buf fill goes).2]
    exact decode_watching codec { r with source } shown buf seen

def inputs (ms : List Move) : List InWindow := ms.map fun m => ⟨m.shown, 0⟩

theorem turns_watching {p : DecompressReader τ × ByteArray}
    {ps : List (DecompressReader τ × ByteArray)} {answer : Reply τ}
    (t : Turns (attempt codec) p ps answer) (seen : List Sight) :
    ∃ saw qs, saw.map (·.input) = inputs (movesFrom codec ps) ∧
      Turns (attempt codec.watched) (p.1.watching seen, p.2) qs
        (answer.1, answer.2.watching (seen ++ saw)) := by
  induction t generalizing seen with
  | @done p answer done =>
    have turn := turn_watching codec p.1 p.2 seen
    rw [done] at turn
    refine ⟨_, _, ?_, .done turn⟩
    rw [movesFrom_singleton]
    cases p.1.moveOf codec p.2 <;> rfl
  | @again p p' ps answer again rest ih =>
    have turn := turn_watching codec p.1 p.2 seen
    rw [again] at turn
    obtain ⟨saw, qs, inputs_saw, turns⟩ :=
      ih (seen ++ (p.1.moveOf codec p.2).toList.map (·.sight p.2))
    rw [List.append_assoc] at turns
    refine ⟨_, _, ?_, .again turn turns⟩
    rw [movesFrom_cons, List.map_append, inputs_saw]
    unfold inputs
    rw [List.map_append]
    congr 1
    cases p.1.moveOf codec p.2 <;> rfl

/-- A watched codec is called for the steps of the read, and for no others. -/
theorem read_watching (codec : Decompressor τ) (r : DecompressReader τ) (buf : ByteArray)
    (seen : List Sight) :
    ∃ saw, saw.map (·.input) = inputs (r.readMoves codec buf) ∧
      ((r.watching seen).read codec.watched buf).value =
        ((r.read codec buf).value.1, (r.read codec buf).value.2.watching (seen ++ saw)) := by
  by_cases room : buf = .empty
  · subst room
    exact ⟨[], rfl, by rw [List.append_nil]; rfl⟩
  · obtain ⟨saw, qs, same, turns⟩ := turns_watching (turns_read codec r room) seen
    rw [readMoves_of_room room]
    exact ⟨saw, same, ((turns_read codec.watched (r.watching seen) room).unique turns).2⟩

theorem readAll_watching (codec : Decompressor τ) (r : DecompressReader τ) (bufs : List ByteArray)
    (seen : List Sight) :
    ∃ saw, saw.map (·.input) = inputs (r.readAllMoves codec bufs) ∧
      (r.watching seen).readAll codec.watched bufs =
        ((r.readAll codec bufs).1, (r.readAll codec bufs).2.watching (seen ++ saw)) := by
  induction bufs generalizing r seen with
  | nil => exact ⟨[], rfl, by rw [List.append_nil]; rfl⟩
  | cons buf bufs ih =>
    obtain ⟨saw, first, read⟩ := read_watching codec r buf seen
    obtain ⟨later, others, reads⟩ := ih (r.read codec buf).value.2 (seen ++ saw)
    refine ⟨saw ++ later, ?_, ?_⟩
    · rw [List.map_append, first, others]
      exact List.map_append.symm
    · rw [readAll_cons read, reads, List.append_assoc]
      rfl

/-- Whatever fails in a run of reads, the codec's input is accounted for. Its steps consumed the
first bytes of the source, in order and each of them once, and these are the bytes the source has
lost; every step was shown the next ones. A read that returns bytes returns what its last step
produced, which did not fail, and the steps before it in that read produced none. A codec that
keeps a record of its calls is called with the inputs of these steps and no others. -/
theorem input_accounted (codec : Decompressor τ) (obeys : codec.Obeys) (source : Source)
    (fresh : τ) (bufs : List ByteArray) :
    let reader : DecompressReader τ := { source, session := fresh }
    let steps := reader.readAllMoves codec bufs
    let last := (reader.readAll codec bufs).2
    source.rest = joined (steps.map (·.taken)) ++ last.source.rest ∧
      last.totalIn = (joined (steps.map (·.taken))).size ∧
      (∀ before m after, steps = before ++ m :: after →
        (∃ more, source.rest = joined (before.map (·.taken)) ++ (m.shown ++ more)) ∧
          ∃ unread, m.shown = m.taken ++ unread) ∧
      (∀ before buf after piece, bufs = before ++ buf :: after →
        let r := (reader.readAll codec before).2
        (r.read codec buf).value.1 = .ok piece → piece ≠ .empty →
          ∃ earlier m, r.readMoves codec buf = earlier ++ [m] ∧ m.given = piece ∧
            m.code.isError = false ∧ ∀ n ∈ earlier, n.given = .empty) ∧
      ∃ saw, saw.map (·.input) = inputs steps ∧
        (reader.watching []).readAll codec.watched bufs =
          ((reader.readAll codec bufs).1, last.watching saw) := by
  intro reader steps last
  obtain ⟨intake, count⟩ := (trail_readAll codec reader bufs).intake obeys
  refine ⟨intake.whole, count.trans (Nat.zero_add _), ?_, ?_, readAll_watching codec reader bufs []⟩
  · intro before m after split
    have parts : Intake source.rest steps last.source.rest := intake
    rw [split] at parts
    exact parts.each
  · intro before buf after piece split r ok some
    exact piece_of_read ok some

/-- A block that is cut by a failure of the source, and a length that is none in the middle. -/
def stumbling : DecompressReader Nat :=
  { source := { queue := [.chunk ⟨#[2, 5]⟩, .gap (.fail ⟨.device "TimedOut", "late"⟩),
      .chunk ⟨#[6, 200]⟩, .chunk ⟨#[1, 7, 0]⟩] }
    session := 0 }

theorem input_accounted_stumbling :
    let bufs : List ByteArray := .replicate 3 ⟨#[0, 0]⟩
    let r := (stumbling.readAll Blocks.decompressor bufs).2
    let last := (stumbling.readAll Blocks.decompressor (bufs ++ [⟨#[0, 0]⟩])).2
    let steps := stumbling.readAllMoves Blocks.decompressor (bufs ++ [⟨#[0, 0]⟩])
    Blocks.decompressor.Obeys ∧
      steps.map (·.code) = [1, ErrorNumber.corruption.code, 0] ∧
      (r.read Blocks.decompressor ⟨#[0, 0]⟩).value.1 = .ok ⟨#[7]⟩ ∧
      stumbling.source.rest = joined (steps.map (·.taken)) ++ last.source.rest ∧
      last.totalIn = 7 ∧
      ∃ earlier m, r.readMoves Blocks.decompressor ⟨#[0, 0]⟩ = earlier ++ [m] ∧
        m.given = ⟨#[7]⟩ ∧ m.code.isError = false := by
  intro bufs r last steps
  obtain ⟨whole, count, -, pieces, -⟩ := input_accounted Blocks.decompressor
    Blocks.decompressor_obeys stumbling.source 0 (bufs ++ [⟨#[0, 0]⟩])
  have ok : (r.read Blocks.decompressor ⟨#[0, 0]⟩).value.1 = .ok ⟨#[7]⟩ :=
    eq_ok_of_toOption (by decide +kernel)
  obtain ⟨earlier, m, moves, given, fine, -⟩ :=
    pieces bufs ⟨#[0, 0]⟩ [] ⟨#[7]⟩ rfl ok (by decide)
  exact ⟨Blocks.decompressor_obeys, by decide +kernel, ok, whole, count.trans (by decide +kernel),
    earlier, m, moves, given, fine⟩

/-- A turn that asks for another has consumed bytes, and they are what the source has lost. -/
theorem Round.consumed {m : Option Move} {p : DecompressReader τ × ByteArray}
    (h : Round codec r buf m (.again p)) (obeys : codec.Obeys) :
    ∃ n ∈ m, n.taken ≠ .empty ∧ p.1.source.left + n.taken.size = r.source.left := by
  obtain ⟨intake, -⟩ := h.intake obeys
  cases h with
  | stepped fill goes verdict =>
    cases verdict with
    | again fine silent shows moved =>
      refine ⟨_, rfl, extract_ne_empty shows moved, ?_⟩
      have whole := congrArg ByteArray.size intake.whole
      rw [Option.toList_some, List.map_singleton, joined_cons, joined_nil, ByteArray.append_empty,
        ByteArray.size_append, Source.size_rest, Source.size_rest] at whole
      exact (Nat.add_comm _ _).trans whole.symm

theorem length_readStates_le (codec : Decompressor τ) (r : DecompressReader τ) (buf : ByteArray) :
    (r.readStates codec buf).length ≤ r.source.left + 1 := by
  fun_induction readStates codec r buf with
  | case1 r buf answer done => exact Nat.le_add_left ..
  | case2 r buf r' buf' again shorter ih =>
    rw [List.length_cons]
    omega

theorem length_readMoves_le (codec : Decompressor τ) (r : DecompressReader τ) (buf : ByteArray) :
    (r.readMoves codec buf).length ≤ r.source.left + 1 := by
  unfold readMoves
  split
  · exact Nat.zero_le _
  · exact Nat.le_trans (List.length_filterMap_le ..) (length_readStates_le codec r buf)

/-- A loop that may take more turns than there are bytes left comes to the answer of the read. -/
theorem repeatFrom_attempt {budget : Nat} (seen : Array Event)
    (enough : r.source.left < budget) :
    repeatFrom (attempt codec) budget seen (r, buf) = some (readFrom codec seen r buf) := by
  fun_induction readFrom codec seen r buf generalizing budget with
  | case1 seen r buf turned answer =>
    rename_i done
    obtain ⟨budget, rfl⟩ := Nat.exists_eq_add_one_of_ne_zero (Nat.ne_zero_of_lt enough)
    unfold repeatFrom
    have value : (attempt codec (r, buf)).value = .done answer := done
    simp only [value]
    rfl
  | case2 seen r buf turned r' buf' again shorter =>
    rename_i ih
    obtain ⟨budget, rfl⟩ := Nat.exists_eq_add_one_of_ne_zero (Nat.ne_zero_of_lt enough)
    unfold repeatFrom
    have value : (attempt codec (r, buf)).value = .again (r', buf') := again
    simp only [value]
    exact ih (by omega)

/-- A read ends, whatever the codec does and wherever the source fails or shows nothing. With `n`
bytes left, `n + 1` turns answer it, and the codec is called at most so often, since between one
turn and the next the codec has consumed bytes of the source. -/
theorem read_ends (codec : Decompressor τ) (obeys : codec.Obeys) (r : DecompressReader τ)
    (buf : ByteArray) :
    (buf = .empty → r.read codec buf = pure (.ok .empty, r)) ∧
      (buf ≠ .empty →
        repeatUntil (attempt codec) (r.source.left + 1) (r, buf) = some (r.read codec buf)) ∧
      (∃ saw, saw.length ≤ r.source.left + 1 ∧
        ((r.watching []).read codec.watched buf).value =
          ((r.read codec buf).value.1, (r.read codec buf).value.2.watching saw)) ∧
      ∀ before p q after, r.readStates codec buf = before ++ p :: q :: after →
        ∃ m ∈ p.1.moveOf codec p.2,
          m.taken ≠ .empty ∧ q.1.source.left + m.taken.size = p.1.source.left := by
  refine ⟨?_, ?_, ?_, ?_⟩
  · rintro rfl
    rfl
  · intro room
    unfold read
    rw [if_neg (mt isEmpty_iff.mp room)]
    exact repeatFrom_attempt #[] (Nat.lt_succ_self _)
  · obtain ⟨saw, inputs_saw, read⟩ := read_watching codec r buf []
    have calls : saw.length = (r.readMoves codec buf).length := by
      simpa [inputs] using congrArg List.length inputs_saw
    exact ⟨saw, calls ▸ length_readMoves_le codec r buf, read⟩
  · intro before p q after split
    have turns : Turns (attempt codec) (r, buf) (r.readStates codec buf) _ := turns_readFrom #[]
    rw [split] at turns
    have turn := round codec p.1 p.2
    rw [turns.next] at turn
    exact turn.consumed obeys

/-- Two ends of frames, and a block that the source ends in. -/
def unfinished : DecompressReader Nat :=
  { source := { queue := [.chunk ⟨#[0, 0]⟩, .chunk ⟨#[2]⟩], ahead := [none, none, none, some .dry] }
    session := 0 }

/-- A read of three bytes that calls the codec four times. -/
theorem read_ends_unfinished :
    let buf : ByteArray := ⟨#[0, 0]⟩
    let reader := unfinished
    Blocks.decompressor.Obeys ∧ buf ≠ .empty ∧ reader.source.left = 3 ∧
      repeatUntil (attempt Blocks.decompressor) 4 (reader, buf) =
        some (reader.read Blocks.decompressor buf) ∧
      (reader.readMoves Blocks.decompressor buf).length = 4 ∧
      ∃ saw, saw.length ≤ 4 ∧
        ((reader.watching []).read Blocks.decompressor.watched buf).value.2.session.2 = saw := by
  intro buf reader
  have room : buf ≠ .empty := by decide
  obtain ⟨-, turns, ⟨saw, calls, read⟩, -⟩ :=
    read_ends Blocks.decompressor Blocks.decompressor_obeys reader buf
  refine ⟨Blocks.decompressor_obeys, room, by decide, turns room, by decide +kernel, saw, calls, ?_⟩
  rw [read]
  rfl

end DecompressReader

end Sluice
