import Mathlib.Tactic.Common

-- The sequence `k % n`, in which `n` participants take turns.
namespace RoundRobin

variable {n i j k l t : Nat}

theorem eq_of_mod_eq (hk : i < k) (hkn : k ≤ i + n) (hl : i < l) (hln : l ≤ i + n)
    (h : k % n = l % n) : k = l := by
  wlog hle : k ≤ l generalizing k l
  case inr => exact this hl hln hk hkn h.symm (Nat.le_of_not_le hle) |>.symm
  have hz : (l - k) % n = 0 := Nat.sub_mod_eq_zero_of_mod_eq h.symm
  have hs := Nat.eq_zero_of_dvd_of_lt (Nat.dvd_of_mod_eq_zero hz) (by omega)
  omega

theorem exists_turn (ht : t < n) : ∃ k, i < k ∧ k ≤ i + n ∧ k % n = t := by
  have hm := Nat.mod_lt i (Nat.zero_lt_of_lt ht)
  have hd := Nat.div_add_mod i n
  by_cases h : i % n < t
  case pos =>
    refine ⟨i + (t - i % n), by omega, by omega, ?_⟩
    have he : i + (t - i % n) = n * (i / n) + t := by omega
    rw [he, Nat.mul_add_mod, Nat.mod_eq_of_lt ht]
  case neg =>
    refine ⟨i + (n - i % n) + t, by omega, by omega, ?_⟩
    have he : i + (n - i % n) + t = n * (i / n) + n + t := by omega
    rw [he, ← Nat.mul_succ, Nat.mul_add_mod, Nat.mod_eq_of_lt ht]

theorem next_turn (hn : 0 < n) (hij : i < j) (hj : j % n = i % n)
    (h : ∀ k, i < k → k < j → k % n ≠ i % n) : j = i + n := by
  have hle : i + n ≤ j := by
    by_contra hlt
    have := eq_of_mod_eq hij (by omega) (by omega : i < i + n) (Nat.le_refl _) <|
      hj.trans (Nat.add_mod_right i n).symm
    omega
  refine Nat.le_antisymm (Nat.le_of_not_lt fun hlt => ?_) hle
  exact h (i + n) (by omega) hlt (Nat.add_mod_right i n)

theorem exists_unique_turn (hij : i < j) (hj : j % n = i % n)
    (h : ∀ k, i < k → k < j → k % n ≠ i % n) (ht : t < n) (hne : t ≠ i % n) :
    ∃! k, i < k ∧ k < j ∧ k % n = t := by
  have he := next_turn (Nat.zero_lt_of_lt ht) hij hj h
  subst he
  have ⟨k, hk, hkn, hm⟩ := exists_turn (i := i) ht
  have hlt : k ≠ i + n := by
    rintro rfl
    exact hne <| hm.symm.trans hj
  refine ⟨k, ⟨hk, by omega, hm⟩, fun l ⟨hl, hln, hml⟩ => ?_⟩
  exact eq_of_mod_eq hl (Nat.le_of_lt hln) hk hkn <| hml.trans hm.symm

end RoundRobin
