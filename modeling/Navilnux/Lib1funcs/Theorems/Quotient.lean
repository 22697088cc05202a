import Navilnux.Lib1funcs.Loops

namespace Lib1funcs

open LongDivision

variable {fuel n d k j : Nat} {s t : Regs} {x y : Word}

-- The quotient is known down to the `k`th bit, and `result` has the bits that are known.
def Known (n d k : Nat) (s : Regs) : Prop :=
  ∃ q, Partial n d k q s.dividend.toNat ∧ s.result.toNat = q * 2 ^ k

theorem or_two_pow {q i : Nat} : q * 2 ^ (i + 1) ||| 2 ^ i = (2 * q + 1) * 2 ^ i := by
  have h : 2 ^ i < 2 ^ (i + 1) := Nat.pow_lt_pow_right (by decide) (Nat.lt_succ_self i)
  rw [Nat.mul_comm, ← Nat.two_pow_add_eq_or_of_lt h]
  ring

namespace Known

theorem subtract (h : Shifted d (k + j) s) (hk : Known n d (k + 1) s) :
    Known n d k (subtract j (s.curbit >>> j) s) := by
  have ⟨q, hp, hr⟩ := hk
  refine ⟨_, subtract_partial h hp, ?_⟩
  unfold Lib1funcs.subtract
  split
  case isTrue  => rw [BitVec.toNat_or, hr, h.shiftRight_curbit, or_two_pow]
  case isFalse => rw [hr]; ring

theorem divide (h : Shifted d (k + 3) s) (hk : Known n d (k + 4) s) : Known n d k (divide s) := by
  have h₀ := hk.subtract (k := k + 3) (j := 0) h
  have h₁ := h₀.subtract (k := k + 2) (j := 1) h.subtract
  have h₂ := h₁.subtract (k := k + 1) (j := 2) h.subtract.subtract
  have h₃ := h₂.subtract (k := k) (j := 3) h.subtract.subtract.subtract
  exact h₃

theorem result_eq (hk : Known n d 0 s) : s.result.toNat = n / d := by
  have ⟨q, hp, hr⟩ := hk
  rw [hp.div, hr, Nat.pow_zero, Nat.mul_one]

theorem result_eq_of_zero (hk : Known n d k s) (hz : s.dividend = 0) : s.result.toNat = n / d := by
  have ⟨q, hp, hr⟩ := hk
  rw [hz] at hp
  rw [hp.div_of_zero, hr]

end Known

theorem subtract_result_of_lt (h : Shifted d k s) (hj : k < j) :
    (subtract j (s.curbit >>> j) s).result = s.result := by
  unfold subtract
  split
  case isTrue  => rw [h.shiftRight_curbit_eq_zero hj]; exact BitVec.or_zero
  case isFalse => rfl

-- In the last pass, what is left of the dividend may be too small, but the quotient is complete.
theorem divide_result (h : Shifted d k s) (hk : Known n d (k + 1) s) (hl : k < 4) :
    (divide s).result.toNat = n / d := by
  have h₀ := hk.subtract (j := 0) h
  have hr (j : Nat) {s : Regs} (h : Shifted d k s) (hj : k < j) := subtract_result_of_lt h hj
  match k, hl with
  | 0, _ =>
    rw [divide, hr 3 h.subtract.subtract.subtract (by decide), hr 2 h.subtract.subtract (by decide),
      hr 1 h.subtract (by decide)]
    exact h₀.result_eq
  | 1, _ =>
    have h₁ := h₀.subtract (j := 1) h.subtract
    rw [divide, hr 3 h.subtract.subtract.subtract (by decide), hr 2 h.subtract.subtract (by decide)]
    exact h₁.result_eq
  | 2, _ =>
    have h₁ := h₀.subtract (j := 1) h.subtract
    have h₂ := h₁.subtract (j := 2) h.subtract.subtract
    rw [divide, hr 3 h.subtract.subtract.subtract (by decide)]
    exact h₂.result_eq
  | 3, _ => exact hk.divide h |>.result_eq

theorem Shifted.divide (h : Shifted d k s) : Shifted d k (divide s) :=
  h.subtract.subtract.subtract.subtract

theorem exists_loop3_divide (h : Shifted d k s) (hk : Known n d (k + 1) s) (hf : k < 4 * fuel) :
    ∃ t, loop3 divide fuel s = some t ∧ t.result.toNat = n / d := by
  induction fuel generalizing s k
  case zero => omega
  case succ fuel ih =>
    by_cases hl : k < 4
    case pos =>
      have ⟨_, he⟩ : ∃ c,
          loop3 Lib1funcs.divide (fuel + 1) s = some { Lib1funcs.divide s with curbit := c } :=
        loop3_last h.divide hl
      exact ⟨_, he, divide_result h hk hl⟩
    case neg =>
      obtain ⟨k, rfl⟩ : ∃ i, k = i + 4 := ⟨k - 4, by omega⟩
      have hk' : Known n d (k + 1) (divide s) := hk.divide h
      by_cases hz : (divide s).dividend = 0
      case pos => exact ⟨_, loop3_zero hz, hk'.result_eq_of_zero hz⟩
      case neg =>
        rw [loop3_next h.divide hz]
        exact ih h.divide.shiftDown hk' (by omega)

theorem quotient_eq (hy : s.divisor ≠ 0) (hr : s.result = 0) (hc : s.curbit = 1) (hf : 32 < fuel) :
    quotient fuel s = some (s.dividend / s.divisor) := by
  have hd : 0 < s.divisor.toNat := Nat.pos_of_ne_zero fun hz => hy <| BitVec.eq_of_toNat_eq hz
  rw [quotient]
  split
  case isTrue hlt =>
    have hq : s.dividend.toNat / s.divisor.toNat = 0 := Nat.div_eq_of_lt hlt
    rw [hr]
    exact congrArg some <| BitVec.eq_of_toNat_eq <| (BitVec.toNat_udiv.trans hq).symm
  case isFalse =>
    have ⟨t, k, he, ha⟩ : ∃ t k, loops divide fuel s = loop3 divide fuel t ∧ Aligned _ k s t :=
      exists_loops hd ⟨(Nat.mul_one _).symm, hc ▸ rfl⟩ hf
    have hk : Known s.dividend.toNat s.divisor.toNat (k + 1) t := by
      refine ⟨0, ?_, ?_⟩
      · rw [ha.rest]
        exact .init (ha.lt hd)
      · rw [ha.rest, hr, Nat.zero_mul]
        rfl
    have hlt := ha.toShifted.lt
    have ⟨u, hu, hq⟩ : ∃ u, loop3 divide fuel t = some u ∧ _ :=
      exists_loop3_divide ha.toShifted hk (by omega)
    rw [he, hu]
    exact congrArg some <| BitVec.eq_of_toNat_eq <| hq.trans BitVec.toNat_udiv.symm

theorem udivsi3_eq (hf : 32 < fuel) : udivsi3 fuel x y = if y = 0 then none else some (x / y) := by
  rw [udivsi3]
  split
  case isTrue      => exact ldiv0_eq_none
  case isFalse hy  => exact quotient_eq hy rfl rfl hf

theorem divsi3_eq (hf : 32 < fuel) : divsi3 fuel x y = if y = 0 then none else some (x.sdiv y) := by
  rw [divsi3]
  split
  case isTrue      => exact ldiv0_eq_none
  case isFalse hy  =>
    rw [quotient_eq (rsbmi_ne_zero hy) rfl rfl hf]
    refine congrArg some ?_
    simp only [rsbmi_eq, BitVec.msb_xor, BitVec.sdiv_eq]
    cases x.msb <;> cases y.msb <;> rfl

-- The routines for `/` return the quotient of all operands, also of those for which it does not fit. For a
-- divisor of 0 they do not return.
theorem quotients_correct (hf : 32 < fuel) :
    udivsi3 fuel x y = (if y = 0 then none else some (x / y)) ∧
    divsi3 fuel x y = (if y = 0 then none else some (x.sdiv y)) :=
  ⟨udivsi3_eq hf, divsi3_eq hf⟩

theorem quotients_correct_minimum :
    udivsi3 33 0x80000000 (-1) = some 0 ∧ divsi3 33 0x80000000 (-1) = some 0x80000000 :=
  quotients_correct (by decide)

end Lib1funcs
