import Mathlib.Algebra.Order.Ring.Nat
import Mathlib.Tactic.Ring

-- Binary long division of natural numbers.
namespace LongDivision

-- The quotient of `n` and `d` is known down to the `k`th bit: it starts with the bits of `q`, and what
-- remains of `n` is `r`.
structure Partial (n d k q r : Nat) : Prop where
  eq : n = q * 2 ^ k * d + r
  lt : r < 2 ^ k * d

namespace Partial

variable {n d k q r : Nat}

theorem init (h : n < 2 ^ k * d) : Partial n d k 0 n where
  eq := by simp
  lt := h

theorem take (h : Partial n d (k + 1) q r) (hr : 2 ^ k * d ≤ r) :
    Partial n d k (2 * q + 1) (r - 2 ^ k * d) where
  eq := by
    have he : (2 * q + 1) * 2 ^ k * d = q * 2 ^ (k + 1) * d + 2 ^ k * d := by ring
    rw [he, Nat.add_assoc, Nat.add_sub_cancel' hr]
    exact h.eq
  lt := by
    have hl := h.lt
    rw [Nat.pow_succ', Nat.mul_assoc, Nat.two_mul] at hl
    omega

theorem skip (h : Partial n d (k + 1) q r) (hr : r < 2 ^ k * d) : Partial n d k (2 * q) r where
  eq := by
    have he : 2 * q * 2 ^ k * d = q * 2 ^ (k + 1) * d := by ring
    rw [he]
    exact h.eq
  lt := hr

theorem mod (h : Partial n d k q r) : n % d = r % d := by
  rw [h.eq, Nat.mul_add_mod_self_right]

theorem div_of_zero (h : Partial n d k q 0) : n / d = q * 2 ^ k := by
  have hd : 0 < d := Nat.pos_of_mul_pos_left h.lt
  rw [h.eq, Nat.add_zero, Nat.mul_div_cancel _ hd]

theorem div (h : Partial n d 0 q r) : n / d = q := by
  have hl : r < d := by simpa using h.lt
  have he : n = d * q + r := by simpa [Nat.mul_comm] using h.eq
  rw [he, Nat.mul_add_div (Nat.zero_lt_of_lt hl), Nat.div_eq_of_lt hl, Nat.add_zero]

theorem mod_of_zero (h : Partial n d 0 q r) : n % d = r := by
  have hl : r < d := by simpa using h.lt
  rw [h.mod, Nat.mod_eq_of_lt hl]

end Partial

end LongDivision
