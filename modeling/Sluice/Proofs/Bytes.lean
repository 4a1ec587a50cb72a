import Sluice.Bytes

namespace Sluice

variable {a b : ByteArray}

def joined (parts : List ByteArray) : ByteArray := parts.foldr (· ++ ·) .empty

@[simp] theorem joined_nil : joined [] = .empty := rfl

@[simp] theorem joined_cons (b : ByteArray) (bs : List ByteArray) :
    joined (b :: bs) = b ++ joined bs := rfl

@[simp] theorem joined_append (bs cs : List ByteArray) :
    joined (bs ++ cs) = joined bs ++ joined cs := by
  induction bs with
  | nil => simp
  | cons b bs ih => simp [ih, ByteArray.append_assoc]

theorem joined_of_empty {bs : List ByteArray} (h : ∀ b ∈ bs, b = .empty) : joined bs = .empty := by
  induction bs with
  | nil => rfl
  | cons b bs ih =>
    rw [joined_cons, h b List.mem_cons_self, ih fun c hc => h c (List.mem_cons_of_mem _ hc),
      ByteArray.empty_append]

theorem joined_eq_empty_iff {bs : List ByteArray} : joined bs = .empty ↔ ∀ b ∈ bs, b = .empty := by
  refine ⟨fun none => ?_, joined_of_empty⟩
  induction bs with
  | nil => nofun
  | cons b bs ih =>
    obtain ⟨head, tail⟩ := ByteArray.append_eq_empty_iff.mp none
    intro c hc
    rcases List.mem_cons.mp hc with rfl | hc
    · exact head
    · exact ih tail c hc

section Filter

variable {α : Type} (p : α → Bool) (f : α → ByteArray) (xs : List α)

theorem size_joined_filter :
    (joined (xs.map f)).size =
      (joined ((xs.filter p).map f)).size + (joined ((xs.filter (!p ·)).map f)).size := by
  induction xs with
  | nil => rfl
  | cons x xs ih =>
    cases h : p x
    all_goals simp only [List.map_cons, List.filter_cons, h, joined_cons, ByteArray.size_append, ih,
      if_true, Bool.not_true, Bool.not_false, Bool.false_eq_true, if_false]
    all_goals omega

theorem joined_filter_eq_empty_iff :
    joined ((xs.filter p).map f) = .empty ↔ ∀ x ∈ xs, p x = true → f x = .empty := by
  rw [joined_eq_empty_iff]
  simp only [List.mem_map, List.mem_filter]
  constructor
  · intro none x hx hp
    exact none _ ⟨x, ⟨hx, hp⟩, rfl⟩
  · rintro each b ⟨x, ⟨hx, hp⟩, rfl⟩
    exact each x hx hp

end Filter

theorem size_le_append (a b : ByteArray) : a.size ≤ (a ++ b).size := by
  rw [ByteArray.size_append]
  exact Nat.le_add_right _ _

theorem isEmpty_iff : b.isEmpty = true ↔ b = .empty := by
  rw [← ByteArray.size_eq_zero_iff]
  simp [ByteArray.isEmpty]

theorem append_push (a b : ByteArray) (x : UInt8) : a ++ b.push x = (a ++ b).push x := by
  rw [← ByteArray.append_toByteArray_singleton, ← ByteArray.append_toByteArray_singleton,
    ByteArray.append_assoc]

theorem push_eq_append (b : ByteArray) (x : UInt8) : b.push x = b ++ ByteArray.empty.push x := by
  rw [append_push, ByteArray.append_empty]

theorem extract_of_size_le {n : Nat} (h : b.size ≤ n) : b.extract 0 n = b := by
  have : b.extract 0 n = b.extract 0 (max n b.size) := by rw [Nat.max_eq_left h]
  rw [this, ByteArray.extract_zero_max_size]

theorem extract_min_size (b : ByteArray) (i j : Nat) :
    b.extract i (min j b.size) = b.extract i j := by
  have := ByteArray.extract_extract (a := b) (i := 0) (j := b.size) (k := i) (l := j)
  simpa using this.symm

theorem extract_ne_empty {n : Nat} (nonempty : b ≠ .empty) (some : n ≠ 0) :
    b.extract 0 n ≠ .empty := by
  intro none
  have size := mt ByteArray.size_eq_zero_iff.mp nonempty
  have := ByteArray.extract_eq_empty_iff.mp none
  omega

theorem extract_append_rest {n : Nat} (le : n ≤ b.size) :
    b.extract 0 n ++ b.extract n b.size = b := by
  rw [← ByteArray.extract_eq_extract_append_extract n (Nat.zero_le _) le,
    ByteArray.extract_zero_size]

theorem extract_succ {i k : Nat} (le : i ≤ k) (h : k < b.size) :
    b.extract i (k + 1) = (b.extract i k).push b[k] := by
  rw [ByteArray.extract_eq_extract_append_extract k le (Nat.le_succ k),
    ByteArray.extract_add_one h, ByteArray.append_toByteArray_singleton]

/-- A part of a window goes on where the window starts. -/
theorem extract_window {k stop j : Nat} (h : j ≤ (b.extract k stop).size) :
    b.extract 0 k ++ (b.extract k stop).extract 0 j = b.extract 0 (k + j) := by
  rw [ByteArray.size_extract] at h
  rw [ByteArray.extract_extract, Nat.add_zero]
  rcases Nat.eq_zero_or_pos j with rfl | some
  · have none : b.extract k (min (k + 0) stop) = .empty :=
      ByteArray.extract_eq_empty_iff.mpr (by omega)
    rw [none, ByteArray.append_empty, Nat.add_zero]
  · have near : min (k + j) stop = k + j := by omega
    rw [near, ← ByteArray.extract_eq_extract_append_extract k (Nat.zero_le _) (by omega)]

theorem extract_append_of_le {i j : Nat} (h : j ≤ a.size) :
    (a ++ b).extract i j = a.extract i j := by
  have none : b.extract (i - a.size) (j - a.size) = .empty :=
    ByteArray.extract_eq_empty_iff.mpr (by omega)
  rw [ByteArray.extract_append, none, ByteArray.append_empty]

theorem extract_append_right {i n : Nat} (h : a.size = i) :
    (a ++ b).extract i (i + n) = b.extract 0 n := by
  have := ByteArray.extract_append_size_add' (a := a) (b := b) (i := 0) (j := n) h.symm
  exact this

theorem extract_append_from {n : Nat} (h : n ≤ a.size) :
    (a ++ b).extract n (a ++ b).size = a.extract n a.size ++ b := by
  have front : a.extract n (a.size + b.size) = a.extract n a.size := by
    rw [← extract_min_size a n (a.size + b.size), Nat.min_eq_right (Nat.le_add_right _ _)]
  have back : b.extract (n - a.size) (a.size + b.size - a.size) = b := by
    rw [Nat.sub_eq_zero_of_le h, Nat.add_sub_cancel_left, ByteArray.extract_zero_size]
  rw [ByteArray.extract_append, ByteArray.size_append, front, back]

end Sluice
