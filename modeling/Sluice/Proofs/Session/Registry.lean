import Mathlib.Data.Finmap
import Sluice.Proofs.Session.Slots

namespace Sluice

/-- The open sessions by their handles. -/
abbrev Registry (α : Type) := Finmap fun _ : Handle => Entry α

namespace SessionTable

variable {α : Type}

/-- What is asked of a table. A `change` looks an entry up for writing and leaves what `f` makes
of it. -/
inductive Request (α : Type)
  | insert (session : α)
  | get (h : Handle)
  | change (h : Handle) (f : Entry α → Entry α)
  | remove (h : Handle)
  | count

inductive Reply (α : Type)
  | opened (h : Handle)
  | found (entry : Option (Entry α))
  | closed (session : Option α)
  | count (n : Nat)

def serve (t : SessionTable α) : Request α → Reply α × SessionTable α
  | .insert session => (.opened (t.insert session).1, (t.insert session).2)
  | .get h => (.found (t.get? h), t)
  | .change h f =>
    match t.get? h with
    | none => (.found none, t)
    | some entry => (.found (some entry), t.set h (f entry))
  | .remove h =>
    match t.remove h with
    | none => (.closed none, t)
    | some (session, t) => (.closed (some session), t)
  | .count => (.count t.size, t)

def serveAll (t : SessionTable α) : List (Request α) → List (Reply α) × SessionTable α
  | [] => ([], t)
  | r :: rs =>
    let (reply, t) := t.serve r
    let (replies, t) := t.serveAll rs
    (reply :: replies, t)

end SessionTable

namespace Registry

open SessionTable

variable {α : Type}

/-- What a finite map may answer, and the map it leaves. It is free in one choice: the key of an
insertion, which must be unused. -/
inductive Serves (m : Registry α) : Request α → Reply α → Registry α → Prop
  | insert (session : α) (h : Handle) (fresh : h ∉ m) :
    Serves m (.insert session) (.opened h) (m.insert h ⟨session, .zero⟩)
  | get (h : Handle) : Serves m (.get h) (.found (m.lookup h)) m
  | change (h : Handle) (f : Entry α → Entry α) (entry : Entry α)
      (found : m.lookup h = some entry) :
    Serves m (.change h f) (.found (some entry)) (m.insert h (f entry))
  | unchanged (h : Handle) (f : Entry α → Entry α) (missing : h ∉ m) :
    Serves m (.change h f) (.found none) m
  | remove (h : Handle) :
    Serves m (.remove h) (.closed ((m.lookup h).map (·.session))) (m.erase h)
  | count : Serves m .count (.count m.keys.card) m

inductive ServesAll : Registry α → List (Request α) → List (Reply α) → Registry α → Prop
  | nil (m : Registry α) : ServesAll m [] [] m
  | cons {m m' m'' : Registry α} {r : Request α} {a : Reply α} {rs : List (Request α)}
    {as : List (Reply α)} (head : Serves m r a m') (tail : ServesAll m' rs as m'') :
    ServesAll m (r :: rs) (a :: as) m''

theorem card_keys_insert {m : Registry α} {h : Handle} (fresh : h ∉ m) (entry : Entry α) :
    (m.insert h entry).keys.card = m.keys.card + 1 := by
  have he : (m.insert h entry).keys = insert h m.keys := by
    ext k
    simp [Finmap.mem_keys, Finmap.mem_insert]
  rw [he, Finset.card_insert_of_notMem (fun hm => fresh (Finmap.mem_keys.mp hm))]

theorem keys_insert_of_mem {m : Registry α} {h : Handle} (found : h ∈ m) (entry : Entry α) :
    (m.insert h entry).keys = m.keys := by
  ext k
  simp only [Finmap.mem_keys, Finmap.mem_insert, or_iff_right_iff_imp]
  rintro rfl
  exact found

theorem card_keys_erase {m : Registry α} {h : Handle} (found : h ∈ m) :
    (m.erase h).keys.card + 1 = m.keys.card := by
  rw [Finmap.keys_erase]
  exact Finset.card_erase_add_one (Finmap.mem_keys.mpr found)

end Registry

namespace SessionTable

variable {α : Type} {t : SessionTable α} {m : Registry α}

/-- The table holds what the map holds: every slot is free or holds the session of one handle. -/
structure Mirrors (t : SessionTable α) (m : Registry α) : Prop where
  consistent : t.Consistent
  get? : ∀ h, t.get? h = m.lookup h
  slots : t.slots.size = t.free.length + m.keys.card

theorem Mirrors.empty : Mirrors ({} : SessionTable α) ∅ :=
  ⟨.empty, fun h => by simp [SessionTable.get?, slot?], by simp⟩

theorem Mirrors.mem_iff (ht : t.Mirrors m) (h : Handle) :
    h ∈ m ↔ ∃ entry, t.get? h = some entry := by
  rw [Finmap.mem_iff, ht.get? h]

theorem Mirrors.size (ht : t.Mirrors m) : t.size = m.keys.card := by
  unfold SessionTable.size
  have := ht.slots
  omega

theorem Mirrors.insert (ht : t.Mirrors m) {session : α}
    (fits : (t.insert session).2.slots.size ≤ UInt32.size) :
    (t.insert session).1 ∉ m ∧
      Mirrors (t.insert session).2 (m.insert (t.insert session).1 ⟨session, .zero⟩) := by
  have hi := inserted ht.consistent fits
  have fresh : (t.insert session).1 ∉ m := by
    rw [← Finmap.lookup_eq_none, ← ht.get?]
    exact hi.fresh
  refine ⟨fresh, hi.consistent, fun k => ?_, ?_⟩
  · by_cases hk : k = (t.insert session).1
    · rw [hk, Finmap.lookup_insert]
      exact hi.found
    · rw [Finmap.lookup_insert_of_ne _ hk, hi.others k hk, ht.get?]
  · have hs := hi.size
    have hm := ht.slots
    rw [Registry.card_keys_insert fresh]
    omega

theorem Mirrors.set (ht : t.Mirrors m) {h : Handle} {old : Entry α} (hg : t.get? h = some old)
    (entry : Entry α) : Mirrors (t.set h entry) (m.insert h entry) := by
  have hr := replaced ht.consistent hg entry
  refine ⟨hr.consistent, fun k => ?_, ?_⟩
  · by_cases hk : k = h
    · rw [hk, Finmap.lookup_insert]
      exact hr.found
    · rw [Finmap.lookup_insert_of_ne _ hk, hr.others k hk, ht.get?]
  · rw [Registry.keys_insert_of_mem ((ht.mem_iff h).mpr ⟨old, hg⟩), hr.size, hr.free]
    exact ht.slots

theorem Mirrors.remove (ht : t.Mirrors m) {h : Handle} {entry : Entry α}
    (hg : t.get? h = some entry) :
    ∃ t', t.remove h = some (entry.session, t') ∧ Mirrors t' (m.erase h) := by
  obtain ⟨t', he, hr⟩ := removed ht.consistent hg
  refine ⟨t', he, hr.consistent, fun k => ?_, ?_⟩
  · by_cases hk : k = h
    · rw [hk, Finmap.lookup_erase]
      exact hr.gone
    · rw [Finmap.lookup_erase_ne hk, hr.others k hk, ht.get?]
  · have hc := Registry.card_keys_erase ((ht.mem_iff h).mpr ⟨entry, hg⟩)
    have hm := ht.slots
    rw [hr.size, hr.free, List.length_cons]
    omega

theorem slots_size_serve (t : SessionTable α) (r : Request α) :
    t.slots.size ≤ (t.serve r).2.slots.size := by
  cases r with
  | insert session => exact slots_size_insert t session
  | get h => exact Nat.le_refl _
  | change h f =>
    simp only [serve]
    cases hg : t.get? h with
    | none => exact Nat.le_refl _
    | some entry => simp [SessionTable.set, hg, setSlot]
  | remove h =>
    simp only [serve, SessionTable.remove]
    cases hg : t.get? h with
    | none => exact Nat.le_refl _
    | some entry => simp [setSlot]
  | count => exact Nat.le_refl _

theorem slots_size_serveAll (t : SessionTable α) (requests : List (Request α)) :
    t.slots.size ≤ (t.serveAll requests).2.slots.size := by
  induction requests generalizing t with
  | nil => exact Nat.le_refl _
  | cons r rs ih => exact Nat.le_trans (slots_size_serve t r) (ih _)

theorem serveAll_append (t : SessionTable α) (before after : List (Request α)) :
    (t.serveAll (before ++ after)).2 = ((t.serveAll before).2.serveAll after).2 := by
  induction before generalizing t with
  | nil => rfl
  | cons r rs ih => exact ih _

theorem Mirrors.serve (ht : t.Mirrors m) {r : Request α}
    (fits : (t.serve r).2.slots.size ≤ UInt32.size) :
    ∃ m', Registry.Serves m r (t.serve r).1 m' ∧ (t.serve r).2.Mirrors m' := by
  cases r with
  | insert session =>
    obtain ⟨fresh, hm⟩ := ht.insert fits
    exact ⟨_, .insert session _ fresh, hm⟩
  | get h =>
    refine ⟨m, ?_, ht⟩
    simp only [SessionTable.serve, ht.get?]
    exact .get h
  | change h f =>
    simp only [SessionTable.serve]
    cases hg : t.get? h with
    | none =>
      have missing : h ∉ m := by rw [← Finmap.lookup_eq_none, ← ht.get?, hg]
      exact ⟨m, .unchanged h f missing, ht⟩
    | some entry =>
      have found : m.lookup h = some entry := by rw [← ht.get?, hg]
      exact ⟨_, .change h f entry found, ht.set hg (f entry)⟩
  | remove h =>
    have answer := Registry.Serves.remove (m := m) h
    simp only [SessionTable.serve]
    cases hg : t.get? h with
    | none =>
      have missing : m.lookup h = none := by rw [← ht.get?, hg]
      have same : m.erase h = m := by
        apply Finmap.ext_lookup
        intro k
        by_cases hk : k = h
        · rw [hk, Finmap.lookup_erase, missing]
        · exact Finmap.lookup_erase_ne hk
      rw [missing, same] at answer
      rw [remove_eq_none_iff.mpr hg]
      exact ⟨m, answer, ht⟩
    | some entry =>
      obtain ⟨t', he, hm⟩ := ht.remove hg
      rw [← ht.get?, hg] at answer
      rw [he]
      exact ⟨_, answer, hm⟩
  | count =>
    refine ⟨m, ?_, ht⟩
    simp only [SessionTable.serve, ht.size]
    exact .count

theorem Mirrors.serveAll {requests : List (Request α)} (ht : t.Mirrors m)
    (fits : (t.serveAll requests).2.slots.size ≤ UInt32.size) :
    ∃ m', Registry.ServesAll m requests (t.serveAll requests).1 m' ∧
      (t.serveAll requests).2.Mirrors m' := by
  induction requests generalizing t m with
  | nil => exact ⟨m, .nil m, ht⟩
  | cons r rs ih =>
    have first := Nat.le_trans (slots_size_serveAll (t.serve r).2 rs) fits
    obtain ⟨m', head, hm'⟩ := ht.serve first
    obtain ⟨m'', tail, hm''⟩ := ih hm' fits
    exact ⟨m'', .cons head tail, hm''⟩

/-- At every moment of a run that needs no more slots than there are indices, all answers so far
are those of a finite map that started empty, and the table holds what that map holds. Reuse of
slots is without limit: generations may wrap. -/
theorem serveAll_refines (requests : List (Request α))
    (fits : (serveAll {} requests).2.slots.size ≤ UInt32.size) :
    ∀ before, before <+: requests →
      let t := (serveAll {} before).2
      ∃ m : Registry α, Registry.ServesAll ∅ before (serveAll {} before).1 m ∧
        (∀ h, t.get? h = m.lookup h) ∧
        t.free.length ≤ t.slots.size ∧ t.size = m.keys.card ∧
        ∀ i ∈ t.free, i.toNat < t.slots.size := by
  rintro before ⟨after, rfl⟩
  rw [serveAll_append] at fits
  have room := Nat.le_trans (slots_size_serveAll (serveAll {} before).2 after) fits
  obtain ⟨m, answers, hm⟩ := Mirrors.empty.serveAll room
  refine ⟨m, answers, hm.get?, ?_, hm.size, fun i hi => hm.consistent.lt_size hi⟩
  have := hm.slots
  omega

/-- A slot is used twice, and the handle of its first session is presented again. -/
def reused : List (Request Nat) :=
  [.insert 10, .insert 20, .remove ⟨0, 0⟩, .insert 30, .get ⟨0, 0⟩,
    .change ⟨0, 1⟩ fun e => { e with progress := ⟨3, 4⟩ }, .get ⟨0, 1⟩, .remove ⟨0, 0⟩, .count]

theorem serveAll_refines_reused :
    (serveAll {} reused).2.slots.size ≤ UInt32.size ∧
      ∃ m : Registry Nat, Registry.ServesAll ∅ reused (serveAll {} reused).1 m ∧
        (∀ h, (serveAll {} reused).2.get? h = m.lookup h) ∧ m.keys.card = 2 := by
  have fits : (serveAll {} reused).2.slots.size ≤ UInt32.size := by decide
  obtain ⟨m, answers, held, _, count, _⟩ := serveAll_refines reused fits reused List.prefix_rfl
  exact ⟨fits, m, answers, held, count.symm.trans (by decide)⟩

end SessionTable

end Sluice
