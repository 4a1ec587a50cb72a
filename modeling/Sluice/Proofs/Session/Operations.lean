import Sluice.Engine
import Sluice.Proofs.Session.Slots

namespace Sluice.SessionTable

variable {α β : Type} {t : SessionTable α} {h k : Handle} {direction : Direction}

theorem Inserted.size_eq {session : α} {t' : SessionTable α} (hi : Inserted t session h t')
    (ht : t.Consistent) : t'.size = t.size + 1 := by
  have := hi.size
  have := ht.length_free_le
  have := hi.consistent.length_free_le
  unfold SessionTable.size
  omega

theorem Removed.size_eq {t' : SessionTable α} (hr : Removed t h t') : t'.size + 1 = t.size := by
  have := hr.consistent.length_free_le
  have hs := hr.size
  rw [hr.free, List.length_cons] at this
  unfold SessionTable.size
  rw [hr.free, List.length_cons]
  omega

theorem withSession_none (run : Entry α → Logged (β × Entry α)) (hg : t.get? h = none) :
    (t.withSession h run).value = (.error .staleHandle, t) := by
  simp [withSession, hg, stale]

theorem withSession_some (run : Entry α → Logged (β × Entry α)) {entry : Entry α}
    (hg : t.get? h = some entry) :
    (t.withSession h run).value = (.ok (run entry).value.1, t.set h (run entry).value.2) := by
  simp [withSession, hg]

theorem get?_withSession (ht : t.Consistent) (run : Entry α → Logged (β × Entry α))
    {entry : Entry α} (hg : t.get? h = some entry) :
    (t.withSession h run).value.2.get? h = some (run entry).value.2 := by
  rw [withSession_some run hg]
  exact (replaced ht hg _).found

/-- A step through an open handle reports what it did, and leaves its state and its progress. -/
theorem drive_some (ht : t.Consistent) (run : α → Logged (Stepped α)) {entry : Entry α}
    (hg : t.get? h = some entry) :
    (t.drive h run).value.1 =
        .ok ((run entry.session).value.report, (run entry.session).value.output) ∧
      (t.drive h run).value.2.get? h =
        some ⟨(run entry.session).value.state, (run entry.session).value.report.progress⟩ := by
  refine ⟨?_, get?_withSession ht _ hg⟩
  unfold drive
  rw [withSession_some _ hg]
  rfl

theorem closeSession_none (hg : t.get? h = none) :
    (t.closeSession direction h).value = (.error .staleHandle, t) := by
  simp [closeSession, remove_eq_none_iff.mpr hg, stale]

theorem closeSession_some (ht : t.Consistent) {entry : Entry α} (hg : t.get? h = some entry) :
    ∃ t', (t.closeSession direction h).value = (.ok (), t') ∧ Removed t h t' := by
  obtain ⟨t', he, hr⟩ := removed ht hg
  exact ⟨t', by simp [closeSession, he], hr⟩

theorem size_withSession (run : Entry α → Logged (β × Entry α)) :
    (t.withSession h run).value.2.size = t.size := by
  cases hg : t.get? h with
  | none => rw [withSession_none run hg]
  | some entry => simp [withSession_some run hg, SessionTable.set, hg, SessionTable.size, setSlot]

/-- All that one call may do to a table, by the handle that the call names. -/
inductive Moved (direction : Direction) (t : SessionTable α) :
    Option Handle → SessionTable α → Prop
  | idle (named : Option Handle) : Moved direction t named t
  | insert (session : α) : Moved direction t none (t.insert session).2
  | use {β : Type} (h : Handle) (run : Entry α → Logged (β × Entry α)) :
    Moved direction t (some h) (t.withSession h run).value.2
  | close (h : Handle) : Moved direction t (some h) (t.closeSession direction h).value.2

namespace Moved

variable {t' : SessionTable α} {named : Option Handle}

/-- Slots are never given up. -/
theorem slots_size_le (hm : Moved direction t named t') : t.slots.size ≤ t'.slots.size := by
  cases hm with
  | idle => exact Nat.le_refl _
  | insert session => exact slots_size_insert t session
  | use h run =>
    cases hg : t.get? h with
    | none => simp [withSession_none run hg]
    | some entry => simp [withSession_some run hg, SessionTable.set, hg, setSlot]
  | close h =>
    cases hg : t.get? h with
    | none => simp [closeSession_none hg]
    | some entry => simp [closeSession, SessionTable.remove, hg, setSlot]

theorem consistent (hm : Moved direction t named t') (ht : t.Consistent)
    (fits : t'.slots.size ≤ UInt32.size) : t'.Consistent := by
  cases hm with
  | idle => exact ht
  | insert session => exact (inserted ht fits).consistent
  | use h run =>
    cases hg : t.get? h with
    | none => simpa [withSession_none run hg] using ht
    | some entry =>
      rw [withSession_some run hg]
      exact (replaced ht hg _).consistent
  | close h =>
    cases hg : t.get? h with
    | none => simpa [closeSession_none hg] using ht
    | some entry =>
      obtain ⟨t', he, hr⟩ := closeSession_some (t := t) ht hg
      rw [he]
      exact hr.consistent

theorem get?_of_ne (hm : Moved direction t named t') (ht : t.Consistent) {entry : Entry α}
    (hg : t.get? k = some entry) (hne : named ≠ some k) : t'.get? k = some entry := by
  cases hm with
  | idle => exact hg
  | insert session => exact get?_insert ht hg session
  | use h run =>
    have hk : k ≠ h := fun he => hne (congrArg some he.symm)
    cases hh : t.get? h with
    | none => rw [withSession_none run hh, hg]
    | some old => rw [withSession_some run hh, (replaced ht hh _).others k hk, hg]
  | close h =>
    have hk : k ≠ h := fun he => hne (congrArg some he.symm)
    cases hh : t.get? h with
    | none => rw [closeSession_none hh, hg]
    | some old =>
      obtain ⟨t', he, hr⟩ := closeSession_some (t := t) ht hh
      rw [he, hr.others k hk, hg]

end Moved

end Sluice.SessionTable
