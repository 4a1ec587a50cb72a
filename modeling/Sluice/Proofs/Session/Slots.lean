import Sluice.Session.Table

namespace Sluice.SessionTable

variable {α : Type} {t : SessionTable α} {h k : Handle}

/-- The free list names the empty slots, each of them once. -/
structure Consistent (t : SessionTable α) : Prop where
  nodup : t.free.Nodup
  mem_free : ∀ i, i ∈ t.free ↔ ∃ slot, t.slots[i.toNat]? = some slot ∧ slot.entry = none

theorem Consistent.empty : Consistent ({} : SessionTable α) :=
  ⟨List.nodup_nil, fun i => by simp⟩

theorem Consistent.lt_size (ht : t.Consistent) {i : UInt32} (hi : i ∈ t.free) :
    i.toNat < t.slots.size := by
  obtain ⟨slot, hs, _⟩ := (ht.mem_free i).mp hi
  exact (Array.getElem?_eq_some_iff.mp hs).1

/-- The number of open sessions is a true difference. -/
theorem Consistent.length_free_le (ht : t.Consistent) : t.free.length ≤ t.slots.size := by
  have nodup : (t.free.map UInt32.toNat).Nodup :=
    List.Pairwise.map _ (fun a b hne he => hne (UInt32.toNat_inj.mp he)) ht.nodup
  have sub : t.free.map UInt32.toNat ⊆ List.range t.slots.size := by
    intro i hi
    obtain ⟨index, hm, rfl⟩ := List.mem_map.mp hi
    exact List.mem_range.mpr (ht.lt_size hm)
  have := List.Nodup.length_le_of_subset nodup sub
  simpa using this

theorem get?_eq_some_iff {entry : Entry α} :
    t.get? h = some entry ↔ t.slots[h.index.toNat]? = some ⟨h.generation, some entry⟩ := by
  unfold get? slot?
  cases hs : t.slots[h.index.toNat]? with
  | none => simp
  | some slot =>
    obtain ⟨generation, held⟩ := slot
    by_cases hg : generation = h.generation <;> simp [Option.filter, hg]

theorem slots_setSlot (index : UInt32) (slot : Slot α) (i : Nat) :
    (t.setSlot index slot).slots[i]? =
      if index.toNat = i then t.slots[i]?.map (fun _ => slot) else t.slots[i]? := by
  simp only [setSlot, Array.getElem?_setIfInBounds]
  by_cases hi : index.toNat = i
  · by_cases hs : i < t.slots.size <;> simp [hi, hs]
  · simp [hi]

/-- Other handles to an overwritten slot found nothing before, since a slot has one generation,
and find nothing after, unless that generation changes together with the session. -/
theorem get?_setSlot_of_ne {old new : Slot α} (hne : k ≠ h)
    (before : t.slots[h.index.toNat]? = some old) (hold : old.generation = h.generation)
    (hnew : new.entry = none ∨ new.generation = h.generation) :
    (t.setSlot h.index new).get? k = t.get? k := by
  apply Option.ext
  intro entry
  rw [get?_eq_some_iff, get?_eq_some_iff, slots_setSlot]
  by_cases hi : h.index.toNat = k.index.toNat
  · have hg : k.generation ≠ h.generation := by
      intro hg
      have hx := UInt32.toNat_inj.mp hi
      exact hne (by cases k; cases h; simp_all)
    rw [if_pos hi, ← hi, before]
    constructor
    · intro he
      rcases hnew with hn | hn <;> simp_all
    · intro he
      simp_all
  · rw [if_neg hi]

theorem get?_setSlot_self {old : Slot α} {entry : Entry α}
    (before : t.slots[h.index.toNat]? = some old) :
    (t.setSlot h.index ⟨h.generation, some entry⟩).get? h = some entry := by
  rw [get?_eq_some_iff, slots_setSlot, if_pos rfl, before]
  rfl

/-- What an insertion leaves: its handle found nothing before and finds the session now. -/
structure Inserted (t : SessionTable α) (session : α) (h : Handle) (t' : SessionTable α) :
    Prop where
  fresh : t.get? h = none
  found : t'.get? h = some ⟨session, .zero⟩
  others : ∀ k, k ≠ h → t'.get? k = t.get? k
  size : t'.slots.size + t.free.length = t.slots.size + t'.free.length + 1
  consistent : t'.Consistent

theorem insert_of_free_cons {index generation : UInt32} {free : List UInt32}
    (hf : t.free = index :: free) (hs : t.slots[index.toNat]? = some ⟨generation, none⟩)
    (session : α) :
    t.insert session = (⟨index, generation⟩,
      { t.setSlot index ⟨generation, some ⟨session, .zero⟩⟩ with free }) := by
  simp [insert, hf, hs]

theorem insert_reuse (ht : t.Consistent) {index : UInt32} {free : List UInt32}
    (hf : t.free = index :: free) (session : α) :
    Inserted t session (t.insert session).1 (t.insert session).2 := by
  obtain ⟨⟨generation, held⟩, hs, hn⟩ := (ht.mem_free index).mp (hf ▸ List.mem_cons_self)
  cases hn
  have hnot := (List.nodup_cons.mp (hf ▸ ht.nodup)).1
  rw [insert_of_free_cons hf hs]
  let h : Handle := ⟨index, generation⟩
  change Inserted t session h { t.setSlot h.index ⟨h.generation, some ⟨session, .zero⟩⟩ with free }
  refine ⟨?_, get?_setSlot_self hs, fun k hk => get?_setSlot_of_ne hk hs rfl (Or.inr rfl), ?_, ?_⟩
  · cases hg : t.get? h with
    | none => rfl
    | some entry =>
      rw [get?_eq_some_iff, hs] at hg
      simp at hg
  · simp only [hf, setSlot, Array.size_setIfInBounds, List.length_cons]
    omega
  · refine ⟨(List.nodup_cons.mp (hf ▸ ht.nodup)).2, fun i => ?_⟩
    have hm := ht.mem_free i
    rw [hf, List.mem_cons] at hm
    change i ∈ free ↔ ∃ slot, (t.setSlot h.index _).slots[i.toNat]? = some slot ∧ _
    rw [slots_setSlot]
    by_cases he : h.index = i
    · subst he
      rw [if_pos rfl, hs]
      simpa [h] using hnot
    · rw [if_neg (fun hx => he (UInt32.toNat_inj.mp hx)), ← hm]
      constructor
      · exact Or.inr
      · rintro (rfl | hi)
        · exact absurd rfl he
        · exact hi

theorem toNat_appendIndex {n : Nat} (fits : n < UInt32.size) : (appendIndex n).toNat = n := by
  have : min n (UInt32.size - 1) = n := by omega
  unfold appendIndex
  rw [this, UInt32.toNat_ofNat_of_lt' fits]

theorem insert_of_free_nil (hf : t.free = []) (session : α) :
    t.insert session = (⟨appendIndex t.slots.size, 0⟩,
      { t with slots := t.slots.push ⟨0, some ⟨session, .zero⟩⟩ }) := by
  simp [insert, hf]

theorem insert_append (ht : t.Consistent) (hf : t.free = []) (fits : t.slots.size < UInt32.size)
    (session : α) : Inserted t session (t.insert session).1 (t.insert session).2 := by
  let h : Handle := ⟨appendIndex t.slots.size, 0⟩
  have hx : h.index.toNat = t.slots.size := toNat_appendIndex fits
  rw [insert_of_free_nil hf]
  refine ⟨?_, ?_, fun k hk => ?_, ?_, ?_⟩
  · cases hg : t.get? h with
    | none => rfl
    | some entry =>
      rw [get?_eq_some_iff, hx] at hg
      simp at hg
  · rw [get?_eq_some_iff, hx]
    simp
  · apply Option.ext
    intro entry
    rw [get?_eq_some_iff, get?_eq_some_iff, Array.getElem?_push]
    by_cases he : k.index.toNat = t.slots.size
    · have hg : k.generation ≠ 0 := by
        intro hg
        have hy := UInt32.toNat_inj.mp (he.trans hx.symm)
        exact hk (by cases k; simp_all [h])
      simp [he, hg.symm]
    · rw [if_neg he]
  · simp [hf]
  · refine ⟨ht.nodup, fun i => ?_⟩
    rw [ht.mem_free i]
    simp only [Array.getElem?_push]
    by_cases he : i.toNat = t.slots.size
    · simp [he]
    · rw [if_neg he]

theorem inserted (ht : t.Consistent) {session : α}
    (fits : (t.insert session).2.slots.size ≤ UInt32.size) :
    Inserted t session (t.insert session).1 (t.insert session).2 := by
  cases hf : t.free with
  | nil =>
    have hs : t.slots.size + 1 ≤ UInt32.size := by simpa [insert, hf] using fits
    exact insert_append ht hf hs session
  | cons index free => exact insert_reuse ht hf session

/-- A session that is open stays open through an insertion, also where the indices run out. -/
theorem get?_insert (ht : t.Consistent) {entry : Entry α} (hg : t.get? k = some entry)
    (session : α) : (t.insert session).2.get? k = some entry := by
  cases hf : t.free with
  | nil =>
    rw [insert_of_free_nil hf]
    rw [get?_eq_some_iff] at hg ⊢
    obtain ⟨inside, -⟩ := Array.getElem?_eq_some_iff.mp hg
    rw [Array.getElem?_push, if_neg (Nat.ne_of_lt inside)]
    exact hg
  | cons index free =>
    have hi := insert_reuse ht hf session
    have hk : k ≠ (t.insert session).1 := by
      rintro rfl
      rw [hi.fresh] at hg
      cases hg
    rw [hi.others k hk, hg]

theorem slots_size_insert (t : SessionTable α) (session : α) :
    t.slots.size ≤ (t.insert session).2.slots.size := by
  unfold SessionTable.insert
  cases t.free with
  | nil => simp
  | cons index free => simp [setSlot]

structure Replaced (t : SessionTable α) (h : Handle) (entry : Entry α) (t' : SessionTable α) :
    Prop where
  found : t'.get? h = some entry
  others : ∀ k, k ≠ h → t'.get? k = t.get? k
  free : t'.free = t.free
  size : t'.slots.size = t.slots.size
  consistent : t'.Consistent

theorem replaced (ht : t.Consistent) {old : Entry α} (hg : t.get? h = some old)
    (entry : Entry α) : Replaced t h entry (t.set h entry) := by
  have hs := get?_eq_some_iff.mp hg
  have he : t.set h entry = t.setSlot h.index ⟨h.generation, some entry⟩ := by simp [set, hg]
  rw [he]
  refine ⟨get?_setSlot_self hs, fun k hk => get?_setSlot_of_ne hk hs rfl (Or.inr rfl), rfl,
    Array.size_setIfInBounds, ht.nodup, fun i => ?_⟩
  change i ∈ t.free ↔ _
  rw [ht.mem_free i, slots_setSlot]
  by_cases hi : h.index.toNat = i.toNat
  · rw [if_pos hi, ← hi, hs]
    simp
  · rw [if_neg hi]

/-- What a removal leaves: its handle finds nothing any more, and its slot is free. -/
structure Removed (t : SessionTable α) (h : Handle) (t' : SessionTable α) : Prop where
  gone : t'.get? h = none
  others : ∀ k, k ≠ h → t'.get? k = t.get? k
  free : t'.free = h.index :: t.free
  size : t'.slots.size = t.slots.size
  consistent : t'.Consistent

theorem remove_eq_none_iff : t.remove h = none ↔ t.get? h = none := by
  simp [remove]

theorem removed (ht : t.Consistent) {entry : Entry α} (hg : t.get? h = some entry) :
    ∃ t', t.remove h = some (entry.session, t') ∧ Removed t h t' := by
  have hs := get?_eq_some_iff.mp hg
  let new : Slot α := ⟨h.generation + 1, none⟩
  have hx : ∀ i : UInt32, (t.setSlot h.index new).slots[i.toNat]? =
      if h.index = i then some new else t.slots[i.toNat]? := by
    intro i
    rw [slots_setSlot]
    by_cases hi : h.index = i
    · subst hi
      simp [hs]
    · rw [if_neg (fun he => hi (UInt32.toNat_inj.mp he)), if_neg hi]
  refine ⟨{ t.setSlot h.index new with free := h.index :: t.free }, by simp [remove, hg, new],
    ?_, fun k hk => get?_setSlot_of_ne hk hs rfl (Or.inl rfl), rfl, Array.size_setIfInBounds,
    ?_, fun i => ?_⟩
  · apply Option.eq_none_iff_forall_ne_some.mpr
    intro e he
    have hf := (hx h.index).symm.trans (get?_eq_some_iff.mp he)
    simp [new] at hf
  · refine List.nodup_cons.mpr ⟨?_, ht.nodup⟩
    intro hm
    obtain ⟨slot, hsl, hn⟩ := (ht.mem_free _).mp hm
    rw [hs] at hsl
    cases hsl
    cases hn
  · change i ∈ h.index :: t.free ↔ ∃ slot, (t.setSlot h.index new).slots[i.toNat]? = _ ∧ _
    rw [hx i, List.mem_cons, ht.mem_free i]
    by_cases hi : h.index = i
    · simp [hi, new]
    · rw [if_neg hi]
      constructor
      · rintro (rfl | hm)
        · exact absurd rfl hi
        · exact hm
      · exact Or.inr

end Sluice.SessionTable
