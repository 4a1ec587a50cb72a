import Sluice.Proofs.Slices

namespace Sluice

/-- The bytes from `i` up to `j`; `none` if these are no range of the bytes. -/
def range? (b : ByteArray) (i j : Nat) : Option ByteArray :=
  if i ≤ j ∧ j ≤ b.size then some (b.extract i j) else none

theorem range?_eq_some {b : ByteArray} {i j : Nat} (ordered : i ≤ j) (inside : j ≤ b.size) :
    range? b i j = some (b.extract i j) := if_pos ⟨ordered, inside⟩

/-- Cutting the start of a range off at its stop changes nothing. -/
theorem extract_min_start (b : ByteArray) (i j : Nat) : b.extract (min i j) j = b.extract i j := by
  rcases Nat.le_total i j with le | ge
  · rw [Nat.min_eq_left le]
  · rw [Nat.min_eq_right ge, ByteArray.extract_eq_empty_iff.mpr (by omega),
      ByteArray.extract_eq_empty_iff.mpr (by omega)]

def InWindow.unread? (w : InWindow) : Option ByteArray :=
  range? w.src (min w.pos w.src.size) w.src.size

theorem InWindow.unread?_eq (w : InWindow) : w.unread? = some w.unread := by
  unfold unread? unread
  rw [range?_eq_some (Nat.min_le_right _ _) (Nat.le_refl _), extract_min_start]

def OutWindow.unfilled? {size : Nat} (w : OutWindow size) : Option ByteArray :=
  range? w.dst (min w.pos w.dst.size) w.dst.size

theorem OutWindow.unfilled?_eq {size : Nat} (w : OutWindow size) :
    w.unfilled? = some w.unfilled := by
  unfold unfilled? unfilled
  rw [range?_eq_some (Nat.min_le_right _ _) (Nat.le_refl _), extract_min_start, w.size_dst]

namespace Word

theorem toNat_satSub (a b : Word) : (a.satSub b).toNat = a.toNat - b.toNat := by
  unfold satSub
  split
  · rename_i le
    exact UInt64.toNat_sub_of_le _ _ le
  · rename_i past
    rw [UInt64.le_iff_toNat_le] at past
    rw [UInt64.toNat_zero]
    omega

end Word

namespace Cursor

variable {c : Cursor} {region : ByteArray}

/-- The bytes of a window, by a slice that has to be a range; `none` inside if there is none. -/
def window? (c : Cursor) : Option (Option ByteArray) :=
  match c.resolve with
  | none => some none
  | some region => (range? region 0 c.stop.toNat).map some

def readable? (c : Cursor) : Option (Option InWindow) :=
  c.window?.map (Option.map fun src => ⟨src, c.start.toNat⟩)

def writable? (c : Cursor) : Option (Option ((size : Nat) × OutWindow size)) :=
  c.window?.map (Option.map fun dst => ⟨_, { OutWindow.whole dst with pos := c.start.toNat }⟩)

def written? (c : Cursor) (produced : Word) : Option ByteArray :=
  match c.region with
  | none => some .empty
  | some region =>
    let stop := min (c.start.satAdd produced).toNat region.size
    range? region (min c.start.toNat stop) stop

theorem stop_le_of_resolve (h : c.resolve = some region) : c.stop.toNat ≤ region.size := by
  by_cases resolves : ∃ region, c.Resolves region
  · obtain ⟨other, resolves⟩ := resolves
    rw [resolves.resolve_eq] at h
    cases h
    exact resolves.stop_le
  · rw [resolve_eq_none resolves] at h
    cases h

theorem window?_eq (c : Cursor) :
    c.window? = some (c.resolve.map fun region => region.extract 0 c.stop.toNat) := by
  unfold window?
  cases h : c.resolve with
  | none => rfl
  | some region =>
    dsimp only
    rw [range?_eq_some (Nat.zero_le _) (stop_le_of_resolve h)]
    rfl

theorem readable?_eq (c : Cursor) : c.readable? = some c.readable := by
  unfold readable? readable
  rw [window?_eq, Option.map_some, Option.map_map]
  rfl

theorem writable?_eq (c : Cursor) : c.writable? = some c.writable := by
  unfold writable? writable
  rw [window?_eq, Option.map_some, Option.map_map]
  rfl

theorem written?_eq (c : Cursor) (produced : Word) :
    c.written? produced = some (c.written produced) := by
  unfold written? written
  cases c.region with
  | none => rfl
  | some region => exact range?_eq_some (Nat.min_le_right _ _) (Nat.min_le_right _ _)

theorem isSome_resolve (c : Cursor) : c.resolve.isSome = c.isValid := by
  unfold resolve
  cases valid : c.isValid with
  | false => rfl
  | true =>
    obtain ⟨region, resolves⟩ := isValid_iff.mp valid
    rw [if_pos rfl, resolves.attached]
    rfl

theorem isSome_readable (c : Cursor) : c.readable.isSome = c.isValid := by
  rw [← isSome_resolve, readable, Option.isSome_map]

theorem isSome_writable (c : Cursor) : c.writable.isSome = c.isValid := by
  rw [← isSome_resolve, writable, Option.isSome_map]

theorem toNat_remaining (c : Cursor) : c.remaining.toNat = c.stop.toNat - c.start.toNat :=
  Word.toNat_satSub _ _

theorem advance_advance (c : Cursor) (a b : Word) :
    (c.advance a).advance b = c.advance (a.satAdd b) := by
  have stop := c.stop.toNat_lt
  have size : UInt64.size = 2 ^ 64 := rfl
  have start : ((c.advance a).advance b).start = (c.advance (a.satAdd b)).start := by
    apply UInt64.toNat_inj.mp
    have same : (c.advance a).stop = c.stop := rfl
    rw [toNat_start_advance, toNat_start_advance, toNat_start_advance, Word.toNat_satAdd, same]
    omega
  exact congrArg (fun first => (⟨c.region, first, c.stop⟩ : Cursor)) start

theorem written_eq (attached : c.region = some region) {produced : Word}
    (fits : min (c.start.toNat + produced.toNat) region.size < UInt64.size) :
    c.written produced = region.extract c.start.toNat (c.start.toNat + produced.toNat) := by
  have stop : min (c.start.satAdd produced).toNat region.size =
      min (c.start.toNat + produced.toNat) region.size := by
    rw [Word.toNat_satAdd]
    omega
  unfold written
  rw [attached]
  dsimp only
  rw [extract_min_start, stop, extract_min_size]

/-- What the windows of a cursor show of its region. -/
structure Exact (c : Cursor) (region : ByteArray) : Prop where
  readable : c.readable = some (c.inWindow region)
  writable : c.writable = some ⟨_, c.outWindow region⟩
  unread : range? region c.start.toNat c.stop.toNat = some (c.inWindow region).unread
  unfilled : range? region c.start.toNat c.stop.toNat = some (c.outWindow region).unfilled
  size_unread : (c.inWindow region).unread.size = c.remaining.toNat
  size_unfilled : (c.outWindow region).unfilled.size = c.remaining.toNat
  written : ∀ produced ≤ c.remaining,
    range? region c.start.toNat (c.start.toNat + produced.toNat) = some (c.written produced)

theorem Resolves.exact (h : c.Resolves region) : c.Exact region := by
  have slice : range? region c.start.toNat c.stop.toNat = some (c.slice region) :=
    range?_eq_some h.start_le h.stop_le
  have size : (c.slice region).size = c.remaining.toNat := by
    rw [h.size_slice, toNat_remaining]
  refine ⟨?_, ?_, ?_, ?_, ?_, ?_, fun produced le => ?_⟩
  · unfold Cursor.readable
    rw [h.resolve_eq]
    rfl
  · unfold Cursor.writable
    rw [h.resolve_eq]
    rfl
  · rw [unread_inWindow, slice]
  · rw [unfilled_outWindow, slice]
  · rw [unread_inWindow, size]
  · rw [unfilled_outWindow, size]
  · have start := h.start_le
    have inside := h.stop_le
    have word := c.stop.toNat_lt
    have top : UInt64.size = 2 ^ 64 := rfl
    rw [UInt64.le_iff_toNat_le, toNat_remaining] at le
    rw [range?_eq_some (Nat.le_add_right _ _) (by omega), written_eq h.attached (by omega)]

/-- For every cursor, whatever its bounds, over a region whose size is a word: no slice is taken
that is no range, and a window is had exactly if the cursor is valid. What remains, where an advance
leads and what was written are told by the numbers that the words stand for, with no wrap-around. On
a valid cursor the windows show the bytes between its bounds, as many as remain. -/
theorem arithmetic_exact (c : Cursor) (fits : ∀ region ∈ c.region, region.size < UInt64.size) :
    ((∀ w : InWindow, w.unread? = some w.unread) ∧
      (∀ {size : Nat} (w : OutWindow size), w.unfilled? = some w.unfilled) ∧
      c.readable? = some c.readable ∧ c.writable? = some c.writable ∧
      ∀ produced, c.written? produced = some (c.written produced)) ∧
    ((c.isValid = true ↔ ∃ region, c.region = some region ∧
        c.start.toNat ≤ c.stop.toNat ∧ c.stop.toNat ≤ region.size) ∧
      c.readable.isSome = c.isValid ∧ c.writable.isSome = c.isValid) ∧
    (c.remaining.toNat = c.stop.toNat - c.start.toNat ∧
      (∀ n, (c.advance n).region = c.region ∧ (c.advance n).stop = c.stop ∧
        (c.advance n).start.toNat = min (c.start.toNat + n.toNat) c.stop.toNat) ∧
      ∀ a b, (c.advance a).advance b = c.advance (a.satAdd b)) ∧
    (∀ region, c.Resolves region → c.Exact region) ∧
    (c.region = none → ∀ produced, c.written produced = .empty) ∧
    ∀ region ∈ c.region, ∀ produced,
      let stop := min (c.start.toNat + produced.toNat) region.size
      range? region (min c.start.toNat stop) stop = some (c.written produced) := by
  refine ⟨⟨InWindow.unread?_eq, OutWindow.unfilled?_eq, c.readable?_eq, c.writable?_eq,
    c.written?_eq⟩, ⟨?_, c.isSome_readable, c.isSome_writable⟩,
    ⟨c.toNat_remaining, fun n => ⟨rfl, rfl, c.toNat_start_advance n⟩, c.advance_advance⟩,
    fun region => Resolves.exact, ?_, ?_⟩
  · rw [isValid_iff]
    exact exists_congr fun region => ⟨fun h => ⟨h.attached, h.start_le, h.stop_le⟩,
      fun ⟨attached, ordered, inside⟩ => ⟨attached, ordered, inside⟩⟩
  · intro unset produced
    unfold Cursor.written
    rw [unset]
  · intro region attached produced stop
    have small := fits region attached
    have written : c.written produced =
        region.extract c.start.toNat (c.start.toNat + produced.toNat) :=
      written_eq attached (by omega)
    rw [range?_eq_some (Nat.min_le_right _ _) (Nat.min_le_right _ _), written, extract_min_start]
    exact congrArg some (extract_min_size region _ _)

/-- The bounds are out of order, and `start + produced` is more than any word. -/
theorem arithmetic_exact_inverted :
    let c : Cursor := ⟨some ⟨#[1, 2, 3, 4]⟩, 2, 1⟩
    let produced : Word := 0 - 1
    c.isValid = false ∧ (c.advance produced).start.toNat = 1 ∧
      c.written produced = ⟨#[3, 4]⟩ := by
  intro c produced
  have fits : ∀ region ∈ c.region, region.size < UInt64.size := by
    rintro region ⟨⟩
    decide
  obtain ⟨-, ⟨valid, -⟩, ⟨-, advances, -⟩, -, -, written⟩ := arithmetic_exact c fits
  refine ⟨?_, (advances produced).2.2, (Option.some.inj (written _ rfl produced)).symm⟩
  rw [← Bool.not_eq_true, valid]
  rintro ⟨region, -, ordered, -⟩
  exact absurd ordered (by decide)

end Cursor

end Sluice
