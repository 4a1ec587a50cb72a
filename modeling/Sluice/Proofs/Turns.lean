import Sluice.Journal

namespace Sluice.Logged

variable {α β : Type} {step : α → Logged (Turn α β)} {budget : Nat} {a : α}

def visited (step : α → Logged (Turn α β)) : (budget : Nat) → α → List α
  | 0, _ => []
  | budget + 1, a =>
    match (step a).value with
    | .again a' => a :: visited step budget a'
    | .done _ => [a]

theorem length_visited_le (step : α → Logged (Turn α β)) (budget : Nat) (a : α) :
    (visited step budget a).length ≤ budget := by
  induction budget generalizing a with
  | zero => exact Nat.le_refl 0
  | succ budget ih =>
    unfold visited
    split
    · exact Nat.succ_le_succ (ih _)
    · exact Nat.succ_le_succ (Nat.zero_le budget)

/-- A loop from its first state to its answer, with the states of all its turns. -/
inductive Turns (step : α → Logged (Turn α β)) : α → List α → β → Prop
  | done {a b} (last : (step a).value = .done b) : Turns step a [a] b
  | again {a a' as b} (turn : (step a).value = .again a') (rest : Turns step a' as b) :
    Turns step a (a :: as) b

/-- A loop takes one way only. -/
theorem Turns.unique {as bs : List α} {b c : β} (t : Turns step a as b) (t' : Turns step a bs c) :
    as = bs ∧ b = c := by
  induction t generalizing bs with
  | done last =>
    cases t' with
    | done last' =>
      rw [last] at last'
      cases last'
      exact ⟨rfl, rfl⟩
    | again turn' rest' =>
      rw [last] at turn'
      cases turn'
  | again turn rest ih =>
    cases t' with
    | done last' =>
      rw [turn] at last'
      cases last'
    | again turn' rest' =>
      rw [turn] at turn'
      cases turn'
      obtain ⟨rfl, rfl⟩ := ih rest'
      exact ⟨rfl, rfl⟩

theorem Turns.next {before after : List α} {p q : α} {b : β}
    (t : Turns step a (before ++ p :: q :: after) b) : (step p).value = .again q := by
  induction before generalizing a with
  | nil =>
    cases t with
    | again turn rest => cases rest <;> exact turn
  | cons c before ih =>
    rw [List.cons_append] at t
    generalize split : before ++ p :: q :: after = states at t
    cases t with
    | done last => simp at split
    | again turn rest => exact ih (split ▸ rest)

theorem turns_of_repeatFrom {seen : Array Event} {r : Logged β}
    (h : repeatFrom step budget seen a = some r) :
    Turns step a (visited step budget a) r.value := by
  induction budget generalizing seen a with
  | zero => cases h
  | succ budget ih =>
    unfold repeatFrom at h
    unfold visited
    cases ht : (step a).value with
    | again a' =>
      simp only [ht] at h
      exact .again ht (ih h)
    | done b =>
      simp only [ht, Option.some.injEq] at h
      subst h
      exact .done ht

theorem turns_of_repeatUntil {r : Logged β} (h : repeatUntil step budget a = some r) :
    Turns step a (visited step budget a) r.value :=
  turns_of_repeatFrom h

theorem Turns.visited {as : List α} {b : β} (t : Turns step a as b) (enough : as.length ≤ budget) :
    visited step budget a = as := by
  induction t generalizing budget with
  | done last =>
    cases budget with
    | zero => cases enough
    | succ budget =>
      unfold Logged.visited
      rw [last]
  | again turn rest ih =>
    cases budget with
    | zero => cases enough
    | succ budget =>
      unfold Logged.visited
      simp only [turn, ih (Nat.le_of_succ_le_succ enough)]

/-- A loop in which a number falls with every turn ends. -/
theorem exists_turns_of_falls {left : Nat → α → Prop}
    (falls : ∀ {n a a'}, left n a → (step a).value = .again a' → ∃ n' < n, left n' a') {n : Nat}
    (h : left n a) : ∃ as b, Turns step a as b ∧ as.length ≤ n + 1 := by
  induction n using Nat.strongRecOn generalizing a with
  | ind n ih =>
    cases turn : (step a).value with
    | done b => exact ⟨[a], b, .done turn, Nat.le_add_left 1 n⟩
    | again a' =>
      obtain ⟨n', less, h'⟩ := falls h turn
      obtain ⟨as, b, rest, length⟩ := ih n' less h'
      refine ⟨a :: as, b, .again turn rest, ?_⟩
      rw [List.length_cons]
      omega

theorem Turns.repeatFrom {as : List α} {b : β} (t : Turns step a as b)
    (enough : as.length ≤ budget) (seen : Array Event) :
    ∃ r, repeatFrom step budget seen a = some r ∧ r.value = b := by
  induction t generalizing budget seen with
  | done last =>
    cases budget with
    | zero => cases enough
    | succ budget =>
      unfold Logged.repeatFrom
      simp only [last]
      exact ⟨_, rfl, rfl⟩
  | again turn rest ih =>
    cases budget with
    | zero => cases enough
    | succ budget =>
      unfold Logged.repeatFrom
      simp only [turn]
      exact ih (Nat.le_of_succ_le_succ enough) _

theorem Turns.repeatUntil {as : List α} {b : β} (t : Turns step a as b)
    (enough : as.length ≤ budget) : ∃ r, repeatUntil step budget a = some r ∧ r.value = b :=
  t.repeatFrom enough #[]

end Sluice.Logged
