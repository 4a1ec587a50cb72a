import Sluice.Proofs.Session.Registry

namespace Sluice.SessionTable

variable {α : Type} {t : SessionTable α} {h : Handle} {i : UInt32} {handles : List Handle}

/-- The handles that insertions were answered with, in order. -/
def issued (replies : List (Reply α)) : List Handle :=
  replies.filterMap fun
    | .opened h => some h
    | _ => none

def firstHandles (i : UInt32) (n : Nat) : List Handle :=
  (List.range n).map fun g => ⟨i, .ofNat g⟩

theorem firstHandles_succ (i : UInt32) (n : Nat) :
    firstHandles i (n + 1) = firstHandles i n ++ [⟨i, .ofNat n⟩] := by
  simp [firstHandles, List.range_succ]

theorem nodup_firstHandles_iff {n : Nat} : (firstHandles i n).Nodup ↔ n ≤ UInt32.size := by
  unfold firstHandles
  rw [List.nodup_map_iff_inj_on List.nodup_range]
  constructor
  · intro inj
    by_contra many
    have same : UInt32.ofNat 0 = UInt32.ofNat UInt32.size := by decide
    have := inj 0 (List.mem_range.mpr (by omega)) UInt32.size (List.mem_range.mpr (by omega))
      (congrArg (Handle.mk i) same)
    cases this
  · intro few x hx y hy same
    have hx := List.mem_range.mp hx
    have hy := List.mem_range.mp hy
    have generations := congrArg (fun h : Handle => h.generation.toNat) same
    simp only at generations
    rwa [UInt32.toNat_ofNat_of_lt' (by omega), UInt32.toNat_ofNat_of_lt' (by omega)]
      at generations

theorem nodup_iff_filter_index :
    handles.Nodup ↔ ∀ i, (handles.filter (·.index = i)).Nodup := by
  constructor
  · intro unique i
    exact unique.filter _
  · intro unique
    refine List.nodup_iff_count_le_one.mpr fun h => ?_
    rw [← List.count_filter (p := (·.index = h.index)) (by simp)]
    exact List.nodup_iff_count_le_one.mp (unique h.index) h

def upcoming (t : SessionTable α) (i : UInt32) : UInt32 :=
  match t.slots[i.toNat]? with
  | none => 0
  | some slot => if slot.entry.isSome then slot.generation + 1 else slot.generation

theorem upcoming_setSlot {index : UInt32} {old new : Slot α}
    (before : t.slots[index.toNat]? = some old) (i : UInt32) :
    (t.setSlot index new).upcoming i =
      if index = i then if new.entry.isSome then new.generation + 1 else new.generation
      else t.upcoming i := by
  unfold upcoming
  rw [slots_setSlot]
  by_cases same : index = i
  · subst same
    simp [before]
  · rw [if_neg (mt UInt32.toNat_inj.mp same), if_neg same]

structure Opened (t : SessionTable α) (h : Handle) (t' : SessionTable α) : Prop where
  generation : h.generation = t.upcoming h.index
  upcoming : ∀ i, t'.upcoming i = if h.index = i then h.generation + 1 else t.upcoming i
  slots : ∀ i : UInt32, i.toNat < t'.slots.size → h.index = i ∨ i.toNat < t.slots.size

theorem opened_reuse (ht : t.Consistent) {index : UInt32} {free : List UInt32}
    (hf : t.free = index :: free) (session : α) :
    Opened t (t.insert session).1 (t.insert session).2 := by
  obtain ⟨⟨generation, held⟩, hs, hn⟩ := (ht.mem_free index).mp (hf ▸ List.mem_cons_self)
  cases hn
  rw [insert_of_free_cons hf hs]
  refine ⟨by simp [SessionTable.upcoming, hs], fun i => ?_, fun i hlt => .inr ?_⟩
  · exact upcoming_setSlot hs i
  · simpa [setSlot] using hlt

theorem opened_append (hf : t.free = []) (fits : t.slots.size < UInt32.size) (session : α) :
    Opened t (t.insert session).1 (t.insert session).2 := by
  have hx := toNat_appendIndex fits
  rw [insert_of_free_nil hf]
  refine ⟨by simp [SessionTable.upcoming, hx], fun i => ?_, fun i hlt => ?_⟩
  · simp only [SessionTable.upcoming, Array.getElem?_push]
    by_cases same : appendIndex t.slots.size = i
    · subst same
      simp [hx]
    · have other : i.toNat ≠ t.slots.size := fun he =>
        same (UInt32.toNat_inj.mp (hx.trans he.symm))
      rw [if_neg other, if_neg same]
  · rw [Array.size_push] at hlt
    by_cases old : i.toNat < t.slots.size
    · exact .inr old
    · have last : i.toNat = t.slots.size := by omega
      exact .inl (UInt32.toNat_inj.mp (hx.trans last.symm))

theorem opened (ht : t.Consistent) {session : α}
    (fits : (t.insert session).2.slots.size ≤ UInt32.size) :
    Opened t (t.insert session).1 (t.insert session).2 := by
  cases hf : t.free with
  | nil =>
    have hs : t.slots.size + 1 ≤ UInt32.size := by simpa [insert, hf] using fits
    exact opened_append hf hs session
  | cons index free => exact opened_reuse ht hf session

theorem upcoming_set (entry : Entry α) (i : UInt32) :
    (t.set h entry).upcoming i = t.upcoming i := by
  unfold SessionTable.set
  cases hg : t.get? h with
  | none => rfl
  | some old =>
    have hs := get?_eq_some_iff.mp hg
    rw [upcoming_setSlot hs]
    by_cases same : h.index = i
    · subst same
      simp [upcoming, hs]
    · rw [if_neg same]

theorem upcoming_remove {session : α} {t' : SessionTable α}
    (hr : t.remove h = some (session, t')) (i : UInt32) : t'.upcoming i = t.upcoming i := by
  obtain ⟨entry, hg, he⟩ := Option.map_eq_some_iff.mp hr
  cases he
  have hs := get?_eq_some_iff.mp hg
  refine (upcoming_setSlot hs i).trans ?_
  by_cases same : h.index = i
  · subst same
    simp [upcoming, hs]
  · rw [if_neg same]

/-- The table issued `handles`: to every slot those of its first generations, in order. -/
structure Numbered (t : SessionTable α) (handles : List Handle) : Prop where
  consistent : t.Consistent
  inOrder : ∀ i, handles.filter (·.index = i) = firstHandles i (handles.countP (·.index = i))
  upcoming : ∀ i, t.upcoming i = .ofNat (handles.countP (·.index = i))
  used : ∀ i : UInt32, i.toNat < t.slots.size → handles.countP (·.index = i) ≠ 0

theorem Numbered.empty : Numbered ({} : SessionTable α) [] :=
  ⟨.empty, fun _ => rfl, fun _ => by simp [SessionTable.upcoming], nofun⟩

theorem Numbered.insert (ht : t.Numbered handles) {session : α}
    (fits : (t.insert session).2.slots.size ≤ UInt32.size) :
    (t.insert session).2.Numbered (handles ++ [(t.insert session).1]) := by
  have ho := opened ht.consistent fits
  have hc := (inserted ht.consistent fits).consistent
  generalize t.insert session = p at ho hc ⊢
  obtain ⟨⟨index, generation⟩, t'⟩ := p
  have number : generation = .ofNat (handles.countP (·.index = index)) :=
    ho.generation.trans (ht.upcoming index)
  refine ⟨hc, fun i => ?_, fun i => ?_, fun i hlt => ?_⟩
  · rw [List.filter_append, List.countP_append, ht.inOrder]
    by_cases same : index = i
    · subst same
      simp [firstHandles_succ, number]
    · simp [same]
  · rw [ho.upcoming, List.countP_append]
    by_cases same : index = i
    · subst same
      simp [number, UInt32.ofNat_add]
    · simp [same, ht.upcoming]
  · rw [List.countP_append]
    rcases ho.slots i hlt with same | old
    · simp_all
    · have := ht.used i old
      omega

theorem Numbered.keep (ht : t.Numbered handles) {t' : SessionTable α} (hc : t'.Consistent)
    (upcoming : ∀ i, t'.upcoming i = t.upcoming i) (size : t'.slots.size = t.slots.size) :
    t'.Numbered handles :=
  ⟨hc, ht.inOrder, fun i => (upcoming i).trans (ht.upcoming i), fun i hlt =>
    ht.used i (size ▸ hlt)⟩

theorem Numbered.serve (ht : t.Numbered handles) {r : Request α}
    (fits : (t.serve r).2.slots.size ≤ UInt32.size) :
    (t.serve r).2.Numbered (handles ++ issued [(t.serve r).1]) := by
  cases r with
  | insert session => exact ht.insert fits
  | get h => simpa [SessionTable.serve, issued] using ht
  | change h f =>
    simp only [SessionTable.serve]
    cases hg : t.get? h with
    | none => simpa [issued] using ht
    | some entry =>
      have hr := replaced ht.consistent hg (f entry)
      simpa [issued] using ht.keep hr.consistent (upcoming_set _) hr.size
  | remove h =>
    simp only [SessionTable.serve]
    cases hg : t.get? h with
    | none =>
      rw [remove_eq_none_iff.mpr hg]
      simpa [issued] using ht
    | some entry =>
      obtain ⟨t', he, hr⟩ := removed ht.consistent hg
      rw [he]
      simpa [issued] using ht.keep hr.consistent (upcoming_remove he) hr.size
  | count => simpa [SessionTable.serve, issued] using ht

theorem issued_cons (reply : Reply α) (replies : List (Reply α)) :
    issued (reply :: replies) = issued [reply] ++ issued replies := by
  unfold issued
  rw [← List.filterMap_append]
  rfl

theorem Numbered.serveAll (ht : t.Numbered handles) {requests : List (Request α)}
    (fits : (t.serveAll requests).2.slots.size ≤ UInt32.size) :
    (t.serveAll requests).2.Numbered (handles ++ issued (t.serveAll requests).1) := by
  induction requests generalizing t handles with
  | nil => simpa [SessionTable.serveAll, issued] using ht
  | cons r rs ih =>
    have first := ht.serve (Nat.le_trans (slots_size_serveAll (t.serve r).2 rs) fits)
    have := ih first fits
    rw [List.append_assoc, ← issued_cons] at this
    exact this

theorem Numbered.nodup_iff (ht : t.Numbered handles) :
    handles.Nodup ↔ ∀ i, handles.countP (·.index = i) ≤ UInt32.size := by
  rw [nodup_iff_filter_index]
  refine forall_congr' fun i => ?_
  rw [ht.inOrder, nodup_firstHandles_iff]

theorem serve_grows {r : Request α} (grows : t.slots.size < (t.serve r).2.slots.size) :
    ∃ session, r = .insert session ∧ t.free = [] ∧
      (t.serve r).2.slots.size = t.slots.size + 1 := by
  cases r with
  | insert session =>
    cases hf : t.free with
    | nil => exact ⟨session, rfl, rfl, by simp [SessionTable.serve, SessionTable.insert, hf]⟩
    | cons index free => simp [SessionTable.serve, SessionTable.insert, hf, setSlot] at grows
  | get h => exact absurd grows (Nat.lt_irrefl _)
  | change h f =>
    cases hg : t.get? h <;> simp [SessionTable.serve, SessionTable.set, hg, setSlot] at grows
  | remove h =>
    cases hg : t.get? h <;> simp [SessionTable.serve, SessionTable.remove, hg, setSlot] at grows
  | count => exact absurd grows (Nat.lt_irrefl _)

/-- The first request that needs more slots than there are indices is answered with a handle that
was issued before. -/
theorem Numbered.opened_of_overflow (ht : t.Numbered handles)
    (small : t.slots.size ≤ UInt32.size) {r : Request α}
    (overflow : UInt32.size < (t.serve r).2.slots.size) :
    ∃ h ∈ handles, issued [(t.serve r).1] = [h] := by
  obtain ⟨session, rfl, hf, size⟩ := serve_grows (Nat.lt_of_le_of_lt small overflow)
  have full : t.slots.size = UInt32.size := by omega
  have last : (appendIndex UInt32.size).toNat < t.slots.size := by
    rw [full]
    decide
  refine ⟨⟨appendIndex UInt32.size, 0⟩, ?_, ?_⟩
  · have first : (⟨appendIndex UInt32.size, 0⟩ : Handle) ∈
        handles.filter (·.index = appendIndex UInt32.size) := by
      rw [ht.inOrder]
      exact List.mem_map.mpr
        ⟨0, List.mem_range.mpr (Nat.pos_of_ne_zero (ht.used _ last)), rfl⟩
    exact List.mem_of_mem_filter first
  · simp [SessionTable.serve, SessionTable.insert, hf, full, issued]

theorem Numbered.fits_of_nodup (ht : t.Numbered handles) (small : t.slots.size ≤ UInt32.size)
    {requests : List (Request α)} (unique : (handles ++ issued (t.serveAll requests).1).Nodup) :
    (t.serveAll requests).2.slots.size ≤ UInt32.size := by
  induction requests generalizing t handles with
  | nil => exact small
  | cons r rs ih =>
    have split : issued (t.serveAll (r :: rs)).1 =
        issued [(t.serve r).1] ++ issued ((t.serve r).2.serveAll rs).1 := issued_cons _ _
    rw [split, ← List.append_assoc] at unique
    by_cases fits : (t.serve r).2.slots.size ≤ UInt32.size
    · exact ih (ht.serve fits) fits unique
    · -- The first request past the limit repeats a handle, whatever comes after it.
      obtain ⟨h, old, again⟩ := ht.opened_of_overflow small (Nat.lt_of_not_le fits)
      rw [again] at unique
      have := (List.nodup_append.mp unique.of_append_left).2.2 h old h (List.mem_singleton_self h)
      exact absurd rfl this

/-- A handle comes to find a session only by being issued. -/
theorem get?_serve_eq_none (ht : t.Consistent) {r : Request α}
    (fits : (t.serve r).2.slots.size ≤ UInt32.size) (gone : t.get? h = none)
    (other : h ∉ issued [(t.serve r).1]) : (t.serve r).2.get? h = none := by
  cases r with
  | insert session =>
    have hk : h ≠ (t.insert session).1 := by simpa [SessionTable.serve, issued] using other
    exact ((inserted ht fits).others h hk).trans gone
  | get k => exact gone
  | change k f =>
    simp only [SessionTable.serve]
    cases hg : t.get? k with
    | none => exact gone
    | some entry =>
      have hk : h ≠ k := by
        rintro rfl
        rw [gone] at hg
        cases hg
      exact ((replaced ht hg _).others h hk).trans gone
  | remove k =>
    simp only [SessionTable.serve]
    cases hg : t.get? k with
    | none =>
      rw [remove_eq_none_iff.mpr hg]
      exact gone
    | some entry =>
      obtain ⟨t', he, hr⟩ := removed ht hg
      have hk : h ≠ k := by
        rintro rfl
        rw [gone] at hg
        cases hg
      rw [he]
      exact (hr.others h hk).trans gone
  | count => exact gone

theorem get?_serveAll_eq_none (ht : t.Numbered handles) {requests : List (Request α)}
    (fits : (t.serveAll requests).2.slots.size ≤ UInt32.size) (gone : t.get? h = none)
    (other : h ∉ issued (t.serveAll requests).1) : (t.serveAll requests).2.get? h = none := by
  induction requests generalizing t handles with
  | nil => exact gone
  | cons r rs ih =>
    have split : issued (t.serveAll (r :: rs)).1 =
        issued [(t.serve r).1] ++ issued ((t.serve r).2.serveAll rs).1 := issued_cons _ _
    rw [split, List.mem_append, not_or] at other
    have first := Nat.le_trans (slots_size_serveAll (t.serve r).2 rs) fits
    exact ih (ht.serve first) fits (get?_serve_eq_none ht.consistent first gone other.1) other.2

theorem replies_serveAll_append (t : SessionTable α) (before after : List (Request α)) :
    (t.serveAll (before ++ after)).1 =
      (t.serveAll before).1 ++ ((t.serveAll before).2.serveAll after).1 := by
  induction before generalizing t with
  | nil => rfl
  | cons r rs ih => exact congrArg (_ :: ·) (ih _)

/-- The handle finds no session, whatever it is used for. -/
structure Rejects (t : SessionTable α) (h : Handle) : Prop where
  get : (t.serve (.get h)).1 = .found none
  change : ∀ f, (t.serve (.change h f)).1 = .found none
  remove : (t.serve (.remove h)).1 = .closed none

theorem rejects_of_get?_eq_none (gone : t.get? h = none) : t.Rejects h := by
  refine ⟨?_, fun f => ?_, ?_⟩
  · simp only [SessionTable.serve, gone]
  · simp only [SessionTable.serve, gone]
  · simp only [SessionTable.serve, remove_eq_none_iff.mpr gone]

/-- The handles of a run are unique: no two insertions return the same one, and a handle whose
session was closed is rejected at every later moment. -/
structure Unique (requests : List (Request α)) : Prop where
  issued : (issued (serveAll {} requests).1).Nodup
  closed : ∀ before h after later, requests = before ++ .remove h :: after ++ later →
    (serveAll {} before).2.get? h ≠ none →
      (serveAll {} (before ++ .remove h :: after)).2.Rejects h

/-- Where no handle is issued twice, one whose session was closed stays without: it was issued
when the session was opened. -/
theorem rejects_of_nodup {before after : List (Request α)}
    (fits : (serveAll {} (before ++ .remove h :: after)).2.slots.size ≤ UInt32.size)
    (unique : (issued (serveAll {} (before ++ .remove h :: after)).1).Nodup)
    (found : (serveAll {} before).2.get? h ≠ none) :
    (serveAll {} (before ++ .remove h :: after)).2.Rejects h := by
  rw [serveAll_append] at fits ⊢
  rw [replies_serveAll_append] at unique
  have fits' := Nat.le_trans (slots_size_serveAll _ _) fits
  have numbered := Numbered.empty.serveAll fits'
  have opened : h ∈ issued (serveAll {} before).1 := by
    by_contra never
    exact found (get?_serveAll_eq_none Numbered.empty fits' (by simp [get?, slot?]) never)
  generalize (serveAll {} before).2 = t at *
  generalize (serveAll {} before).1 = replies at *
  obtain ⟨entry, hg⟩ := Option.ne_none_iff_exists'.mp found
  obtain ⟨t', he, hr⟩ := removed numbered.consistent hg
  have closing : t.serve (.remove h) = (.closed (some entry.session), t') := by
    simp only [SessionTable.serve, he]
  have run : t.serveAll (.remove h :: after) =
      (.closed (some entry.session) :: (t'.serveAll after).1, (t'.serveAll after).2) := by
    simp only [SessionTable.serveAll, closing]
  rw [run] at fits unique ⊢
  have kept := numbered.serve (r := .remove h) (by rw [closing, hr.size]; exact fits')
  rw [closing] at kept
  -- To find a session again, the handle would have to be issued a second time.
  refine rejects_of_get?_eq_none (get?_serveAll_eq_none kept fits hr.gone fun again => ?_)
  rw [issued, List.filterMap_append] at unique
  exact (List.nodup_append.mp unique).2.2 h opened h again rfl

/-- Handles are unique over a run exactly if it needs no more slots than there are indices, and
opens no slot more often than there are generations. -/
theorem unique_iff (requests : List (Request α)) :
    Unique requests ↔ (serveAll {} requests).2.slots.size ≤ UInt32.size ∧
      ∀ i, (issued (serveAll {} requests).1).countP (·.index = i) ≤ UInt32.size := by
  constructor
  · intro unique
    have fits := Numbered.empty.fits_of_nodup (Nat.zero_le _) unique.issued
    exact ⟨fits, (Numbered.empty.serveAll fits).nodup_iff.mp unique.issued⟩
  · rintro ⟨fits, few⟩
    have unique := (Numbered.empty.serveAll fits).nodup_iff.mpr few
    refine ⟨unique, ?_⟩
    rintro before h after later rfl found
    rw [serveAll_append] at fits
    rw [List.nil_append, replies_serveAll_append, issued, List.filterMap_append] at unique
    exact rejects_of_nodup (Nat.le_trans (slots_size_serveAll _ _) fits) unique.of_append_left
      found

def cycles : Nat → List (Request Nat)
  | 0 => []
  | n + 1 => cycles n ++ [.insert n, .remove ⟨0, .ofNat n⟩]

theorem serveAll_cycles (n : Nat) :
    (serveAll {} (cycles (n + 1))).2 = ⟨#[⟨.ofNat (n + 1), none⟩], [0]⟩ := by
  induction n with
  | zero => rfl
  | succ n ih =>
    rw [cycles, serveAll_append, ih]
    simp [SessionTable.serveAll, SessionTable.serve, SessionTable.insert, SessionTable.remove,
      get?, slot?, setSlot, Option.filter, UInt32.ofNat_add]

theorem issued_cycles (n : Nat) :
    issued (serveAll {} (cycles (n + 1))).1 = firstHandles 0 (n + 1) := by
  induction n with
  | zero => rfl
  | succ n ih =>
    rw [cycles, replies_serveAll_append, issued, List.filterMap_append, firstHandles_succ, ← ih,
      serveAll_cycles]
    simp [SessionTable.serveAll, SessionTable.serve, SessionTable.insert, SessionTable.remove,
      get?, slot?, setSlot, Option.filter, issued]

/-- Once the generations of a slot are used up, its first handle is rejected no more: it is issued
again, and reaches the session that is in the slot now. -/
theorem not_unique_cycles :
    let t := (serveAll {} (cycles UInt32.size)).2
    ⟨0, 0⟩ ∈ issued (serveAll {} (cycles UInt32.size)).1 ∧ t.Rejects ⟨0, 0⟩ ∧
      (t.insert 7).1 = ⟨0, 0⟩ ∧ (t.insert 7).2.get? ⟨0, 0⟩ = some ⟨7, .zero⟩ ∧
      ¬Unique (cycles UInt32.size ++ [.insert 7]) := by
  obtain ⟨n, size⟩ : ∃ n, UInt32.size = n + 1 := ⟨UInt32.size - 1, rfl⟩
  have wrapped : UInt32.ofNat (n + 1) = 0 := by
    rw [← size]
    rfl
  have first : ⟨0, 0⟩ ∈ issued (serveAll {} (cycles (n + 1))).1 := by
    rw [issued_cycles]
    exact List.mem_map.mpr ⟨0, List.mem_range.mpr (Nat.succ_pos n), rfl⟩
  rw [size]
  intro t
  have state : t = ⟨#[⟨0, none⟩], [0]⟩ := by
    have := serveAll_cycles n
    rwa [wrapped] at this
  have again : (t.insert 7).1 = ⟨0, 0⟩ := by
    rw [state]
    rfl
  refine ⟨first, ?_, again, ?_, ?_⟩
  · rw [state]
    exact rejects_of_get?_eq_none rfl
  · rw [state]
    rfl
  · intro unique
    have issued := unique.issued
    rw [replies_serveAll_append, SessionTable.issued, List.filterMap_append] at issued
    refine (List.nodup_append.mp issued).2.2 _ first ⟨0, 0⟩ ?_ rfl
    change _ ∈ [(t.insert 7).1]
    rw [again]
    exact List.mem_singleton_self _

end Sluice.SessionTable
