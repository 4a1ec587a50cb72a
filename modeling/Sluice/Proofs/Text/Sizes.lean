import Sluice.Proofs.Text.Rounding
import Sluice.Text.Decimal

namespace Sluice.Text

section Numbers

variable {ds : List Char} {places : Nat}

theorem digits?_of_isDigit (nonempty : ds ≠ []) (all : ∀ c ∈ ds, c.isDigit = true) :
    digits? ds = some (Nat.ofDigitChars 10 ds 0) := by
  cases ds with
  | nil => exact absurd rfl nonempty
  | cons d ds => exact if_pos (List.all_eq_true.mpr all)

def padded (m n : Nat) : List Char := List.replicate m '0' ++ Nat.toDigits 10 n

theorem isDigit_of_mem_padded {m n : Nat} : ∀ c ∈ padded m n, c.isDigit = true := by
  intro c mem
  rcases List.mem_append.mp mem with zero | digit
  · rw [List.eq_of_mem_replicate zero]
    rfl
  · exact Nat.isDigit_of_mem_toDigits (by decide) (by decide) digit

@[simp]
theorem digits?_padded (m n : Nat) : digits? (padded m n) = some n := by
  rw [digits?_of_isDigit (by simp [padded, Nat.toDigits_ne_nil]) isDigit_of_mem_padded, padded,
    Nat.ofDigitChars_append, Nat.ofDigitChars_replicate_zero, Nat.mul_zero,
    Nat.ofDigitChars_toDigits (by decide) (by decide)]

theorem toList_toString (n : Nat) : (toString n).toList = padded 0 n := by
  simp [padded]

/-- The number that digits stand for, maybe with a point among them, and how many of them come
after the point. -/
def decimal? (cs : List Char) : Option (ℚ × Nat) :=
  match cs.splitOn '.' with
  | [whole] => (digits? whole).map fun w => (w, 0)
  | [whole, decimals] => do
    let w ← digits? whole
    let d ← digits? decimals
    pure (w + d / 10 ^ decimals.length, decimals.length)
  | _ => none

theorem not_mem_padded {c : Char} (other : c.isDigit = false) (m n : Nat) : c ∉ padded m n := by
  intro mem
  rw [isDigit_of_mem_padded c mem] at other
  cases other

theorem decimal?_whole (n : Nat) : decimal? (padded 0 n) = some ((n : ℚ), 0) := by
  unfold decimal?
  rw [List.splitOn_eq_singleton (not_mem_padded rfl 0 n)]
  simp

theorem decimal?_point (w m d : Nat) :
    decimal? (padded 0 w ++ '.' :: padded m d) =
      some ((w : ℚ) + d / 10 ^ (padded m d).length, (padded m d).length) := by
  unfold decimal?
  rw [List.splitOn_append_cons_self_of_not_mem (not_mem_padded rfl 0 w),
    List.splitOn_eq_singleton (not_mem_padded rfl m d)]
  simp

theorem toList_pushn (m : Nat) : ("".pushn '0' m).toList = List.replicate m '0' := by
  rw [String.pushn_eq_repeat_push]
  induction m with
  | zero => rfl
  | succ m ih => rw [Nat.repeat, String.toList_push, ih, List.replicate_succ']

theorem toList_fixed (places num den : Nat) :
    let q := roundDiv (num * 10 ^ places) den
    let decimals := q % 10 ^ places
    (fixed places num den).toList =
      padded 0 (q / 10 ^ places) ++
        '.' :: padded (places - (Nat.toDigits 10 decimals).length) decimals := by
  intro q decimals
  simp [fixed, padded, toList_pushn, ← String.length_toList, q, decimals]
  rfl

/-- Decimals read back as the number that was rounded to them. -/
theorem decimal?_fixed (num den : Nat) (above : 0 < places) :
    decimal? (fixed places num den).toList =
      some ((roundDiv (num * 10 ^ places) den : ℚ) / 10 ^ places, places) := by
  have toList := toList_fixed places num den
  generalize roundDiv (num * 10 ^ places) den = q at toList
  have fits : (Nat.toDigits 10 (q % 10 ^ places)).length ≤ places :=
    (Nat.length_toDigits_le_iff (by decide) above).mpr (Nat.mod_lt _ (by positivity))
  have length :
      (padded (places - (Nat.toDigits 10 (q % 10 ^ places)).length) (q % 10 ^ places)).length =
        places := by
    rw [padded, List.length_append, List.length_replicate]
    omega
  have split := cast_div_eq q (show 0 < 10 ^ places by positivity)
  push_cast at split
  rw [toList, decimal?_point, length, split]

theorem not_mem_fixed {c : Char} (other : c.isDigit = false) (point : c ≠ '.')
    (places num den : Nat) : c ∉ (fixed places num den).toList := by
  rw [toList_fixed]
  simp [not_mem_padded other, point]

end Numbers

def units : List String := ["B", "KB", "MB", "GB", "TB"]

section Units

variable {n k : Nat} {unit : String}

theorem idxOf?_units (named : units[k]? = some unit) : units.idxOf? unit = some k := by
  obtain ⟨low, rfl⟩ := List.getElem?_eq_some_iff.mp named
  revert k
  decide

theorem not_mem_units (named : units[k]? = some unit) : ' ' ∉ unit.toList := by
  obtain ⟨low, rfl⟩ := List.getElem?_eq_some_iff.mp named
  revert k
  decide

/-- The search stops at the first unit of which the next power of 1024 is not reached. -/
theorem unitPower_cases (num den : Nat) (names : List String) (k : Nat) :
    ∃ i unit, unitPower num den names k = (k + i, unit) ∧ (names ++ ["TB"])[i]? = some unit ∧
      (i ≠ 0 → den <<< (10 * (k + i)) ≤ num) ∧
      (i < names.length → num < den <<< (10 * (k + i + 1))) := by
  induction names generalizing k with
  | nil => exact ⟨0, "TB", rfl, rfl, fun ne => absurd rfl ne, nofun⟩
  | cons name names ih =>
    rw [unitPower]
    split
    · rename_i below
      exact ⟨0, name, rfl, rfl, fun ne => absurd rfl ne, fun _ => below⟩
    · rename_i reached
      obtain ⟨i, unit, eq, named, least, next⟩ := ih (k + 1)
      have sum : k + 1 + i = k + (i + 1) := by omega
      rw [sum] at eq least next
      refine ⟨i + 1, unit, eq, named, fun _ => ?_, fun lt => next (Nat.lt_of_succ_lt_succ lt)⟩
      cases i with
      | zero => exact Nat.not_lt.mp reached
      | succ i => exact least (Nat.succ_ne_zero i)

/-- The power of 1024 that the largest unit stands for which `n` bytes reach. -/
def power (n : Nat) : Nat := Nat.findGreatest (fun k => 1024 ^ k ≤ n) 4

theorem power_eq_iff :
    power n = k ↔ k ≤ 4 ∧ (k ≠ 0 → 1024 ^ k ≤ n) ∧ ∀ ⦃j⦄, k < j → j ≤ 4 → ¬1024 ^ j ≤ n :=
  Nat.findGreatest_eq_iff

theorem lt_of_power_lt (inside : power n < 4) : n < 1024 ^ (power n + 1) := by
  obtain ⟨-, -, greatest⟩ := power_eq_iff.mp (Eq.refl (power n))
  exact Nat.not_le.mp (greatest (Nat.lt_succ_self _) inside)

theorem unitPower_binaryQuotient (n : Nat) :
    ∃ unit, units[power n]? = some unit ∧
      unitPower (binaryQuotient n 1).1 (binaryQuotient n 1).2 ["B", "KB", "MB", "GB"] 0 =
        (power n, unit) := by
  obtain ⟨i, unit, eq, named, least, next⟩ :=
    unitPower_cases (binaryQuotient n 1).1 (binaryQuotient n 1).2 ["B", "KB", "MB", "GB"] 0
  rw [Nat.zero_add] at eq least next
  have last : i ≤ 4 := Nat.le_of_lt_succ (List.getElem?_eq_some_iff.mp named).1
  have greatest : power n = i := by
    refine power_eq_iff.mpr ⟨last, fun ne => ?_, fun j above low reached => ?_⟩
    · exact (shiftLeft_le_binaryQuotient_iff last).mp (least ne)
    · have reached : 1024 ^ (i + 1) ≤ n := (Nat.pow_le_pow_right (by decide) above).trans reached
      have inside : i + 1 ≤ 4 := Nat.le_trans above low
      have shifted := (shiftLeft_le_binaryQuotient_iff inside).mpr reached
      exact absurd shifted (Nat.not_le.mpr (next inside))
  rw [greatest]
  exact ⟨unit, named, eq⟩

end Units

/-- What the text of a size says: a number with so many decimals, and a unit. -/
structure Size where
  number : ℚ
  places : Nat
  power : Nat
deriving DecidableEq

def size? (s : String) : Option Size :=
  match s.toList.splitOn ' ' with
  | [number, unit] => do
    let (number, places) ← decimal? number
    let power ← units.idxOf? (String.ofList unit)
    pure { number, places, power }
  | _ => none

theorem size?_join {number unit : String} {v : ℚ} {places k : Nat}
    (read : decimal? number.toList = some (v, places)) (blank : ' ' ∉ number.toList)
    (named : units[k]? = some unit) : size? s!"{number} {unit}" = some ⟨v, places, k⟩ := by
  have text : (s!"{number} {unit}").toList = number.toList ++ ' ' :: unit.toList := by
    simp
    rfl
  unfold size?
  rw [text, List.splitOn_append_cons_self_of_not_mem blank,
    List.splitOn_eq_singleton (not_mem_units named)]
  simp [read, idxOf?_units named]

namespace Size

variable {s : Size} {x : ℚ} {m : Nat}

/-- The number is `x`, rounded to its decimals. -/
def Shows (s : Size) (x : ℚ) : Prop :=
  ∃ q : Nat, s.number = q / 10 ^ s.places ∧ RoundsTo (x * 10 ^ s.places) q

theorem Shows.le (h : s.Shows x) (low : m ≤ x) : m ≤ s.number := by
  obtain ⟨q, eq, rounds⟩ := h
  have scale : (0 : ℚ) < 10 ^ s.places := by positivity
  have reached : m * 10 ^ s.places ≤ q := rounds.le (by push_cast; gcongr)
  rw [eq, le_div_iff₀ scale]
  exact_mod_cast reached

theorem Shows.ge (h : s.Shows x) (high : x ≤ m) : s.number ≤ m := by
  obtain ⟨q, eq, rounds⟩ := h
  have scale : (0 : ℚ) < 10 ^ s.places := by positivity
  have reached : q ≤ m * 10 ^ s.places := rounds.ge (by push_cast; gcongr)
  rw [eq, div_le_iff₀ scale]
  exact_mod_cast reached

/-- The number is below an even one if `x` is by more than half of the last decimal. -/
theorem Shows.lt_iff (h : s.Shows x) (even : Even m) :
    s.number < m ↔ x + 1 / 2 / 10 ^ s.places < m := by
  obtain ⟨q, eq, rounds⟩ := h
  have scale : (0 : ℚ) < 10 ^ s.places := by positivity
  have below := rounds.lt_iff (even.mul_right (10 ^ s.places))
  have sum : x + 1 / 2 / 10 ^ s.places = (x * 10 ^ s.places + 1 / 2) / 10 ^ s.places := by
    field_simp
  rw [eq, sum, div_lt_iff₀ scale, div_lt_iff₀ scale, ← lt_sub_iff_add_lt]
  exact_mod_cast below

end Size

theorem size?_bytes {n : Nat} (bytes : power n = 0) :
    size? (sizeInUnits n) = some ⟨n, 0, 0⟩ := by
  obtain ⟨unit, named, chosen⟩ := unitPower_binaryQuotient n
  rw [bytes] at named chosen
  have text : sizeInUnits n = s!"{toString n} {unit}" := by
    simp only [sizeInUnits, chosen]
    rfl
  have digits := toList_toString n
  rw [text]
  refine size?_join ?_ ?_ named
  · rw [digits, decimal?_whole]
  · rw [digits]
    exact not_mem_padded rfl 0 n

theorem size?_above {n : Nat} (above : 0 < power n) :
    ∃ v, size? (sizeInUnits n) = some ⟨v, 2, power n⟩ ∧
      Size.Shows ⟨v, 2, power n⟩ (binary n / 1024 ^ power n) := by
  obtain ⟨unit, named, chosen⟩ := unitPower_binaryQuotient n
  have text : sizeInUnits n =
      s!"{fixed 2 (binaryQuotient n 1).1 ((binaryQuotient n 1).2 <<< (10 * power n))} {unit}" := by
    obtain ⟨k, eq⟩ := Nat.exists_eq_succ_of_ne_zero above.ne'
    rw [eq] at chosen ⊢
    simp only [sizeInUnits, chosen]
  rw [text]
  refine ⟨_, size?_join (decimal?_fixed _ _ two_pos) ?_ named, _, rfl, roundsTo_units n _ 2⟩
  exact not_mem_fixed rfl (by decide) _ _ _

/-- Every size is written in the largest unit that it reaches: bytes as they are, and any other
unit with two decimals and at least one of it. In a unit between the first and the last, the number
is the quotient rounded to the decimals. It never exceeds 1024, and stays below exactly if the
quotient does by more than half of the last decimal. -/
theorem size_normalised_iff (n : Nat) :
    ∃ s, size? (sizeInUnits n) = some s ∧
      s.power = Nat.findGreatest (fun k => 1024 ^ k ≤ n) 4 ∧
      s.places = (if s.power = 0 then 0 else 2) ∧
      (s.power = 0 → s.number = n ∧ n < 1024) ∧
      (0 < s.power → 1 ≤ s.number) ∧
      (0 < s.power → s.power < 4 →
        s.Shows (n / 1024 ^ s.power) ∧ s.number ≤ 1024 ∧
          (s.number < 1024 ↔ (n : ℚ) / 1024 ^ s.power + 1 / 200 < 1024)) := by
  rcases Nat.eq_zero_or_pos (power n) with bytes | above
  · have small : n < 1024 ^ (power n + 1) := lt_of_power_lt (by omega)
    rw [bytes] at small
    exact ⟨_, size?_bytes bytes, bytes.symm, rfl, fun _ => ⟨rfl, small⟩, nofun, nofun⟩
  · obtain ⟨v, read, shows⟩ := size?_above above
    refine ⟨_, read, rfl, (if_neg above.ne').symm, fun zero => absurd zero above.ne', fun _ => ?_,
      fun _ inside => ?_⟩
    · obtain ⟨last, least, -⟩ := power_eq_iff.mp (Eq.refl (power n))
      have one : ((1 : Nat) : ℚ) ≤ binary n / 1024 ^ power n := by
        rw [Nat.cast_one, one_le_div (by positivity)]
        exact le_binary last (least above.ne')
      exact_mod_cast shows.le one
    · have next : n < 1024 ^ (power n + 1) := lt_of_power_lt inside
      have limit : 1024 ^ (power n + 1) ≤ 1024 ^ 4 := Nat.pow_le_pow_right (by decide) inside
      rw [binary_of_lt (by omega)] at shows
      have product : n ≤ 1024 * 1024 ^ power n := by
        rw [← Nat.pow_succ']
        exact next.le
      have high : (n : ℚ) / 1024 ^ power n ≤ (1024 : Nat) := by
        rw [div_le_iff₀ (by positivity)]
        exact_mod_cast product
      have below := shows.lt_iff (m := 1024) (by decide)
      have half : (1 : ℚ) / 2 / 10 ^ 2 = 1 / 200 := by norm_num
      rw [half] at below
      exact ⟨shows, by exact_mod_cast shows.ge high, by exact_mod_cast below⟩

/-- One byte less than a megabyte is written in kilobytes, and rounded up to 1024 of them. -/
theorem size_not_normalised :
    sizeInUnits 1048575 = "1024.00 KB" ∧
      ¬∃ s, size? (sizeInUnits 1048575) = some s ∧ (s.power < 4 → s.number < 1024) := by
  have read : size? (sizeInUnits 1048575) = some ⟨1024, 2, 1⟩ := by decide +kernel
  refine ⟨rfl, ?_⟩
  rintro ⟨s, eq, below⟩
  rw [read] at eq
  cases eq
  exact absurd (below (by decide)) (by decide)

/-- The last size of its unit with a number below 1024, and the first without. -/
example : sizeInUnits 1048570 = "1023.99 KB" ∧ sizeInUnits 1048571 = "1024.00 KB" := ⟨rfl, rfl⟩

end Sluice.Text
