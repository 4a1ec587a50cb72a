import Sluice.Proofs.Bytes
import Sluice.Stream.Source

namespace Sluice.Source

variable {s : Source} {bytes : ByteArray}

/-- The source delivers `bytes` in chunks and then ends. -/
def Delivers (s : Source) (bytes : ByteArray) : Prop :=
  s.ahead = [] ∧ ∃ chunks : List ByteArray, s.queue = chunks.map .chunk ∧ joined chunks = bytes

def ofChunks (chunks : List ByteArray) : Source := { queue := chunks.map .chunk }

theorem delivers_ofChunks (chunks : List ByteArray) :
    (ofChunks chunks).Delivers (joined chunks) := ⟨rfl, chunks, rfl, rfl⟩

theorem joined_dropWhile_isEmpty (chunks : List ByteArray) :
    joined (chunks.dropWhile (·.isEmpty)) = joined chunks := by
  induction chunks with
  | nil => rfl
  | cons c cs ih =>
    rw [List.dropWhile_cons]
    split
    · rename_i spent
      rw [ih, joined_cons, isEmpty_iff.mp spent, ByteArray.empty_append]
    · rfl

theorem dropWhile_isSpent (chunks : List ByteArray) :
    (chunks.map Item.chunk).dropWhile Item.isSpent =
      (chunks.dropWhile (·.isEmpty)).map .chunk :=
  List.dropWhile_map

/-- A source that delivers `bytes` shows the next of them, and shows none only at the end. What is
consumed of them is no longer delivered. -/
structure Shows (s : Source) (bytes shown : ByteArray) : Prop where
  part : ∃ rest, bytes = shown ++ rest
  ends : shown = .empty → bytes = .empty
  kept : s.Delivers bytes
  consumed : ∀ n, n ≤ shown.size → (s.consume n).Delivers (bytes.extract n bytes.size)

theorem fill_delivers (h : s.Delivers bytes) :
    ∃ shown s', s.fill = (.ok shown, s') ∧ s'.Shows bytes shown := by
  obtain ⟨ahead, chunks, hq, rfl⟩ := h
  unfold fill front
  rw [ahead, hq, dropWhile_isSpent, ← joined_dropWhile_isEmpty]
  cases hd : chunks.dropWhile (·.isEmpty) with
  | nil =>
    refine ⟨.empty, _, rfl, ⟨.empty, by simp⟩, fun _ => rfl, ⟨rfl, [], rfl, rfl⟩, ?_⟩
    intro n hn
    exact ⟨rfl, [], rfl, (ByteArray.extract_eq_empty_iff.mpr (Nat.zero_le _)).symm⟩
  | cons c cs =>
    have nonempty : c ≠ .empty := by
      intro spent
      have head := List.head?_dropWhile_not (fun b : ByteArray => b.isEmpty) chunks
      rw [hd, spent] at head
      cases head
    refine ⟨c, _, rfl, ⟨joined cs, rfl⟩, fun spent => absurd spent nonempty,
      ⟨rfl, c :: cs, rfl, rfl⟩, ?_⟩
    intro n hn
    rw [joined_cons, extract_append_from hn]
    simp only [consume]
    split
    · exact ⟨rfl, c.extract n c.size :: cs, rfl, rfl⟩
    · have : n = c.size := by omega
      exact ⟨rfl, cs, rfl, by simp [this]⟩

theorem mem_front {queue : List Item} {i : Item} (h : i ∈ (front queue).2) : i ∈ queue := by
  have part := List.dropWhile_sublist Item.isSpent (l := queue)
  unfold front at h
  split at h <;> rename_i split <;> rw [split] at part
  · cases h
  · exact part.subset h
  · exact part.subset (List.mem_cons_of_mem _ h)

theorem front_error {queue : List Item} {f : Failure} (h : (front queue).1 = .error f) :
    .gap (.fail f) ∈ queue := by
  have part := List.dropWhile_sublist Item.isSpent (l := queue)
  unfold front at h
  split at h <;> rename_i split <;> rw [split] at part
  · cases h
  · cases h
  · rename_i g rest
    cases g with
    | dry => cases h
    | fail g =>
      cases h
      exact part.subset List.mem_cons_self

/-- Each failure that fills can meet is one of these. -/
structure FailsOnly (p : Failure → Prop) (s : Source) : Prop where
  queue : ∀ f, .gap (.fail f) ∈ s.queue → p f
  ahead : ∀ f, some (.fail f) ∈ s.ahead → p f

variable {p : Failure → Prop} {s' : Source} {result : Except Failure ByteArray}

theorem FailsOnly.fill (only : s.FailsOnly p) (h : s.fill = (result, s')) :
    s'.FailsOnly p ∧ ∀ f, result = .error f → p f := by
  have later : ∀ {g : Option Gap}, g ∈ s.ahead.tail → g ∈ s.ahead := List.mem_of_mem_tail
  unfold Source.fill at h
  split at h
  · rename_i g here
    cases h
    refine ⟨⟨only.queue, fun f hf => only.ahead f (later hf)⟩, ?_⟩
    intro f hf
    cases g with
    | dry => cases hf
    | fail g =>
      cases hf
      exact only.ahead _ (List.mem_of_mem_head? here)
  · cases h
    refine ⟨⟨fun f hf => only.queue f (mem_front hf), fun f hf => only.ahead f (later hf)⟩, ?_⟩
    intro f hf
    exact only.queue f (front_error hf)

theorem FailsOnly.consume (only : s.FailsOnly p) (n : Nat) : (s.consume n).FailsOnly p := by
  unfold Source.consume
  split
  · rename_i bytes queue here
    have rest : ∀ f, .gap (.fail f) ∈ queue → p f := fun f hf =>
      only.queue f (here ▸ List.mem_cons_of_mem _ hf)
    split
    · refine ⟨fun f hf => ?_, only.ahead⟩
      rcases List.mem_cons.mp hf with chunk | hf
      · cases chunk
      · exact rest f hf
    · exact ⟨rest, only.ahead⟩
  · exact only

end Sluice.Source
