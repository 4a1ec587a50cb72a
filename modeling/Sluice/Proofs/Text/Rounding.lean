import Mathlib.Tactic.FieldSimp
import Mathlib.Tactic.Linarith
import Mathlib.Tactic.NormNum
import Mathlib.Tactic.Positivity
import Mathlib.Tactic.Ring
import Sluice.Text.Number

namespace Sluice.Text

/-- The whole number nearest to `x`, the even one where two are equally near. -/
structure RoundsTo (x : ℚ) (q : Nat) : Prop where
  near : |x - q| ≤ 1 / 2
  even : |x - q| = 1 / 2 → Even q

namespace RoundsTo

variable {x : ℚ} {m p q : Nat}

theorem self (q : Nat) : RoundsTo q q := by
  constructor <;> norm_num

theorem down {f : ℚ} (nonneg : 0 ≤ f) (half : f ≤ 1 / 2) (tie : f = 1 / 2 → Even q) :
    RoundsTo (q + f) q := by
  have distance : |(q : ℚ) + f - q| = f := by rw [add_sub_cancel_left, abs_of_nonneg nonneg]
  constructor <;> rw [distance]
  · exact half
  · exact tie

theorem up {f : ℚ} (half : 1 / 2 ≤ f) (le : f ≤ 1) (tie : f = 1 / 2 → Even (q + 1)) :
    RoundsTo (q + f) (q + 1) := by
  have distance : |(q : ℚ) + f - (q + 1 : Nat)| = 1 - f := by
    rw [abs_of_nonpos] <;> push_cast <;> linarith
  constructor <;> rw [distance]
  · linarith
  · exact fun eq => tie (by linarith)

theorem le (h : RoundsTo x q) (low : (m : ℚ) ≤ x) : m ≤ q := by
  have near := (abs_le.mp h.near).2
  have above : (m : ℚ) < (q + 1 : Nat) := by
    push_cast
    linarith
  exact Nat.lt_succ_iff.mp (by exact_mod_cast above)

theorem ge (h : RoundsTo x q) (high : x ≤ m) : q ≤ m := by
  have near := (abs_le.mp h.near).1
  have below : (q : ℚ) < (m + 1 : Nat) := by
    push_cast
    linarith
  exact Nat.lt_succ_iff.mp (by exact_mod_cast below)

/-- An even number is reached from half a unit below it, that point included. -/
theorem lt_iff (h : RoundsTo x q) (even : Even m) : q < m ↔ x < m - 1 / 2 := by
  obtain ⟨low, high⟩ := abs_le.mp h.near
  constructor
  · intro lt
    have next : (q : ℚ) + 1 ≤ m := by exact_mod_cast lt
    refine lt_of_le_of_ne (by linarith) fun half => ?_
    -- `x` lies half way between `m - 1` and `m`, so that `q` is `m - 1` and odd
    have above : x - q = 1 / 2 := by linarith
    have succ : q + 1 = m := by exact_mod_cast (by linarith : (q : ℚ) + 1 = m)
    rw [← succ, Nat.even_add_one] at even
    exact even (h.even (by rw [above]; norm_num))
  · intro lt
    have below : (q : ℚ) < m := by linarith
    exact_mod_cast below

theorem unique (hp : RoundsTo x p) (hq : RoundsTo x q) : p = q := by
  wlog lt : p < q generalizing p q
  · rcases Nat.lt_or_eq_of_le (Nat.le_of_not_lt lt) with gt | eq
    · exact (this hq hp gt).symm
    · exact eq.symm
  · -- they are neighbours, each half a unit off, and only one of them is even
    have next : (p : ℚ) + 1 ≤ q := by exact_mod_cast lt
    obtain ⟨-, high⟩ := abs_le.mp hp.near
    obtain ⟨low, -⟩ := abs_le.mp hq.near
    have above : x - p = 1 / 2 := by linarith
    have below : x - q = -(1 / 2) := by linarith
    have evenq : Even q := hq.even (by rw [below]; norm_num)
    have succ : p + 1 = q := by exact_mod_cast (by linarith : (p : ℚ) + 1 = q)
    rw [← succ, Nat.even_add_one] at evenq
    exact absurd (hp.even (by rw [above]; norm_num)) evenq

end RoundsTo

section Quotients

variable {num den : Nat}

theorem cast_div_eq (num : Nat) (pos : 0 < den) :
    (num : ℚ) / den = (num / den : Nat) + (num % den : Nat) / den := by
  have sum : (num : ℚ) = den * (num / den : Nat) + (num % den : Nat) := by
    exact_mod_cast (Nat.div_add_mod num den).symm
  have positive : (den : ℚ) ≠ 0 := by exact_mod_cast pos.ne'
  conv_lhs => rw [sum]
  field_simp

theorem div_le_half_iff (pos : 0 < den) : (num : ℚ) / den ≤ 1 / 2 ↔ 2 * num ≤ den := by
  rw [div_le_div_iff₀ (by exact_mod_cast pos) two_pos, one_mul, mul_comm]
  exact_mod_cast Iff.rfl

theorem half_le_div_iff (pos : 0 < den) : 1 / 2 ≤ (num : ℚ) / den ↔ den ≤ 2 * num := by
  rw [div_le_div_iff₀ two_pos (by exact_mod_cast pos), one_mul, mul_comm]
  exact_mod_cast Iff.rfl

theorem roundsTo_roundDiv (num : Nat) (pos : 0 < den) :
    RoundsTo (num / den) (roundDiv num den) := by
  have less : num % den < den := Nat.mod_lt num pos
  rw [cast_div_eq num pos]
  simp only [roundDiv]
  generalize num / den = q, num % den = r at less
  split
  · rename_i above
    have above : den < 2 * r ∨ den = 2 * r ∧ q % 2 = 1 := by simpa using above
    have fraction : (r : ℚ) / den ≤ 1 := by
      rw [div_le_one (by exact_mod_cast pos)]
      exact_mod_cast less.le
    refine .up ((half_le_div_iff pos).mpr (by omega)) fraction fun tie => ?_
    have half := (div_le_half_iff pos).mp tie.le
    rw [Nat.even_iff]
    omega
  · rename_i below
    have below : 2 * r ≤ den ∧ (den = 2 * r → q % 2 = 0) := by simpa using below
    refine .down (by positivity) ((div_le_half_iff pos).mpr below.1) fun tie => ?_
    have half := (half_le_div_iff pos).mp tie.ge
    rw [Nat.even_iff]
    exact below.2 (by omega)

end Quotients

theorem roundDiv_one (n : Nat) : roundDiv n 1 = n := by
  have rounds := roundsTo_roundDiv n Nat.one_pos
  rw [Nat.cast_one, div_one] at rounds
  exact rounds.unique (.self n)

theorem binaryQuotient_zero : binaryQuotient 0 1 = (0, 2 ^ 53) := rfl

theorem binaryQuotient_one {n : Nat} {s : Int} (scale : 52 - (Nat.log2 n : Int) = s)
    (enough : 2 ^ 52 ≤ (scaled n 1 s).1 / (scaled n 1 s).2) :
    binaryQuotient n 1 = scaled (roundDiv (scaled n 1 s).1 (scaled n 1 s).2) 1 (-s) := by
  have start : (52 + Nat.log2 1 - Nat.log2 n : Int) = s := scale
  have stays : ¬(scaled n 1 s).1 / (scaled n 1 s).2 < 1 <<< 52 := Nat.not_lt.mpr enough
  simp only [binaryQuotient, start, if_neg stays]

theorem binaryQuotient_of_lt {n : Nat} (small : n < 2 ^ 53) :
    ∃ d, 0 < d ∧ binaryQuotient n 1 = (n * d, d) := by
  rcases Nat.eq_zero_or_pos n with rfl | pos
  · exact ⟨2 ^ 53, by decide, by rw [binaryQuotient_zero, Nat.zero_mul]⟩
  · have log : Nat.log2 n < 53 := (Nat.log2_lt pos.ne').mpr small
    obtain ⟨k, sum⟩ : ∃ k : Nat, Nat.log2 n + k = 52 := ⟨52 - Nat.log2 n, by omega⟩
    have up : scaled n 1 k = (n * 2 ^ k, 1) := by simp [scaled, Nat.shiftLeft_eq]
    have down : scaled (n * 2 ^ k) 1 (-k) = (n * 2 ^ k, 2 ^ k) := by
      simp [scaled, Nat.shiftLeft_eq]
    have enough : 2 ^ 52 ≤ n * 2 ^ k := by
      rw [← sum, Nat.pow_add]
      exact Nat.mul_le_mul_right _ (Nat.log2_self_le pos.ne')
    refine ⟨2 ^ k, by positivity, ?_⟩
    rw [binaryQuotient_one (s := k) (by omega) (by simpa [up] using enough), up, roundDiv_one,
      down]

theorem binaryQuotient_of_le {n : Nat} (large : 2 ^ 52 ≤ n) :
    ∃ p, 2 ^ 52 ≤ p ∧ binaryQuotient n 1 = (p, 1) := by
  have pos : 0 < n := Nat.lt_of_lt_of_le (by decide) large
  have log : 52 ≤ Nat.log2 n := (Nat.le_log2 pos.ne').mpr large
  obtain ⟨e, sum⟩ : ∃ e : Nat, 52 + e = Nat.log2 n := ⟨Nat.log2 n - 52, by omega⟩
  have down : scaled n 1 (-e) = (n, 2 ^ e) := by simp [scaled, Nat.shiftLeft_eq]
  have enough : 2 ^ 52 * 2 ^ e ≤ n := by
    rw [← Nat.pow_add, sum]
    exact Nat.log2_self_le pos.ne'
  have positive : 0 < 2 ^ e := by positivity
  have high : 2 ^ 52 ≤ roundDiv n (2 ^ e) := by
    refine (roundsTo_roundDiv n positive).le ?_
    rw [le_div_iff₀ (by exact_mod_cast positive)]
    exact_mod_cast enough
  have higher : 2 ^ 52 ≤ roundDiv n (2 ^ e) * 2 ^ e :=
    high.trans (Nat.le_mul_of_pos_right _ positive)
  refine ⟨_, higher, ?_⟩
  rw [binaryQuotient_one (s := -e) (by omega)
    (by simpa [down] using (Nat.le_div_iff_mul_le positive).mpr enough), down]
  simp [scaled, Nat.shiftLeft_eq]

theorem binaryQuotient_pos (n : Nat) : 0 < (binaryQuotient n 1).2 := by
  rcases Nat.lt_or_ge n (2 ^ 53) with small | large
  · obtain ⟨d, pos, eq⟩ := binaryQuotient_of_lt small
    rwa [eq]
  · obtain ⟨p, -, eq⟩ := binaryQuotient_of_le (n := n) (by omega)
    rw [eq]
    exact Nat.one_pos

/-- A size brought to 53 significant bits. -/
def binary (n : Nat) : ℚ := (binaryQuotient n 1).1 / (binaryQuotient n 1).2

theorem binary_of_lt {n : Nat} (small : n < 2 ^ 53) : binary n = n := by
  obtain ⟨d, pos, eq⟩ := binaryQuotient_of_lt small
  have positive : (d : ℚ) ≠ 0 := by exact_mod_cast pos.ne'
  simp only [binary, eq]
  push_cast
  field_simp

theorem shiftLeft_units (den k : Nat) : den <<< (10 * k) = den * 1024 ^ k := by
  rw [Nat.shiftLeft_eq, Nat.pow_mul]

/-- What is written of a size in units of `1024 ^ k`, for any number of decimals. -/
theorem roundsTo_units (n k places : Nat) :
    RoundsTo (binary n / 1024 ^ k * 10 ^ places)
      (roundDiv ((binaryQuotient n 1).1 * 10 ^ places)
        ((binaryQuotient n 1).2 <<< (10 * k))) := by
  have pos := binaryQuotient_pos n
  simp only [binary]
  generalize (binaryQuotient n 1).1 = num, (binaryQuotient n 1).2 = den at pos
  have quotient : (num : ℚ) / den / 1024 ^ k * 10 ^ places =
      (num * 10 ^ places : Nat) / (den * 1024 ^ k : Nat) := by
    push_cast
    field_simp
  rw [shiftLeft_units, quotient]
  exact roundsTo_roundDiv _ (by positivity)

/-- Up to the largest unit, a size reaches a unit if its 53 bits do. -/
theorem shiftLeft_le_binaryQuotient_iff {n k : Nat} (unit : k ≤ 4) :
    (binaryQuotient n 1).2 <<< (10 * k) ≤ (binaryQuotient n 1).1 ↔ 1024 ^ k ≤ n := by
  rw [shiftLeft_units, Nat.mul_comm]
  rcases Nat.lt_or_ge n (2 ^ 53) with small | large
  · obtain ⟨d, pos, eq⟩ := binaryQuotient_of_lt small
    rw [eq]
    exact Nat.mul_le_mul_right_iff pos
  · obtain ⟨p, high, eq⟩ := binaryQuotient_of_le (n := n) (by omega)
    have low : 1024 ^ k ≤ 1024 ^ 4 := Nat.pow_le_pow_right (by decide) unit
    rw [eq, Nat.mul_one]
    constructor <;> intro <;> omega

theorem le_binary {n k : Nat} (unit : k ≤ 4) (reached : 1024 ^ k ≤ n) :
    (1024 : ℚ) ^ k ≤ binary n := by
  have shifted := (shiftLeft_le_binaryQuotient_iff unit).mpr reached
  rw [shiftLeft_units, Nat.mul_comm] at shifted
  have den : (0 : ℚ) < (binaryQuotient n 1).2 := by exact_mod_cast binaryQuotient_pos n
  rw [binary, le_div_iff₀ den]
  exact_mod_cast shifted

end Sluice.Text
