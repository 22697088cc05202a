import Mathlib.Algebra.BigOperators.Group.Finset.Piecewise
import Mathlib.Algebra.Order.BigOperators.Group.Finset
import Mathlib.Tactic.Common

-- Tasks take permits and give them back. A history of these events lists the latest event first.
inductive Permit (τ : Type)
  | take (t : τ)
  | give (t : τ)
  deriving DecidableEq

namespace Permit

variable {τ : Type}

def taken : List (Permit τ) → Nat
  | []          => 0
  | take _ :: h => taken h + 1
  | give _ :: h => taken h

def given : List (Permit τ) → Nat
  | []          => 0
  | take _ :: h => given h
  | give _ :: h => given h + 1

variable [DecidableEq τ] {t u : τ} {h : List (Permit τ)}

def held (t : τ) : List (Permit τ) → Int
  | []          => 0
  | take u :: h => held t h + if t = u then 1 else 0
  | give u :: h => held t h - if t = u then 1 else 0

def Matched : List (Permit τ) → Prop
  | []          => True
  | take _ :: h => Matched h
  | give t :: h => 0 < held t h ∧ Matched h

theorem sum_held_take (T : Finset τ) :
    ∑ t ∈ T, held t (take u :: h) = (∑ t ∈ T, held t h) + if u ∈ T then 1 else 0 := by
  simp [held, Finset.sum_add_distrib]

theorem sum_held_give (T : Finset τ) :
    ∑ t ∈ T, held t (give u :: h) = (∑ t ∈ T, held t h) - if u ∈ T then 1 else 0 := by
  simp [held, Finset.sum_sub_distrib]

-- Any tasks together hold at most the permits which were taken and not given back. The tasks vary
-- in the induction, since a permit can be given back by a task which is not among them.
theorem Matched.sum_held_le (m : Matched h) (T : Finset τ) :
    ∑ t ∈ T, held t h ≤ (taken h : Int) - given h := by
  induction h generalizing T
  case nil => simp [held, taken, given]
  case cons e h ih =>
    cases e
    case take u =>
      have := ih m T
      rw [sum_held_take, taken, given]
      split <;> omega
    case give u =>
      have ⟨hu, m⟩ := m
      rw [sum_held_give, taken, given]
      by_cases hT : u ∈ T
      case pos =>
        have := ih m T
        simp only [if_pos hT]
        omega
      case neg =>
        have := ih m (insert u T)
        rw [Finset.sum_insert hT] at this
        simp only [if_neg hT]
        omega

theorem Matched.card_le (m : Matched h) {T : Finset τ} (hT : ∀ t ∈ T, 0 < held t h) :
    (T.card : Int) ≤ taken h - given h :=
  calc
    (T.card : Int) = ∑ _t ∈ T, (1 : Int) := by simp
    _ ≤ ∑ t ∈ T, held t h               := Finset.sum_le_sum hT
    _ ≤ taken h - given h               := m.sum_held_le T

end Permit
