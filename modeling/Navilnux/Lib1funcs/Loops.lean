import Navilnux.Base.LongDivision
import Navilnux.Lib1funcs.Basic

namespace Lib1funcs

open LongDivision

variable {limit bit x y : Word} {fuel n d k j q : Nat} {s t : Regs}

structure Shifted (d k : Nat) (s : Regs) : Prop where
  divisor : s.divisor.toNat = d * 2 ^ k
  curbit  : s.curbit.toNat = 2 ^ k

namespace Shifted

theorem lt (h : Shifted d k s) : k < 32 := by
  have hlt := s.curbit.isLt
  rw [h.curbit] at hlt
  exact Nat.pow_lt_pow_iff_right (by decide) |>.mp hlt

theorem mul_lt (h : Shifted d k s) : d * 2 ^ k < 2 ^ 32 :=
  h.divisor ▸ s.divisor.isLt

theorem curbit_eq (h : Shifted d k s) : s.curbit = BitVec.ofNat 32 (2 ^ k) := by
  rw [← h.curbit, BitVec.ofNat_toNat, BitVec.setWidth_eq]

theorem shiftRight_divisor (h : Shifted d (k + j) s) : (s.divisor >>> j).toNat = 2 ^ k * d := by
  have he : d * 2 ^ (k + j) = 2 ^ k * d * 2 ^ j := by ring
  rw [BitVec.toNat_ushiftRight, h.divisor, Nat.shiftRight_eq_div_pow, he,
    Nat.mul_div_cancel _ (Nat.two_pow_pos j)]

theorem shiftRight_curbit (h : Shifted d (k + j) s) : (s.curbit >>> j).toNat = 2 ^ k := by
  rw [BitVec.toNat_ushiftRight, h.curbit, Nat.shiftRight_eq_div_pow, Nat.pow_add,
    Nat.mul_div_cancel _ (Nat.two_pow_pos j)]

theorem shiftRight_curbit_eq_zero (h : Shifted d k s) (hj : k < j) : s.curbit >>> j = 0 := by
  apply BitVec.eq_of_toNat_eq
  rw [BitVec.toNat_ushiftRight, h.curbit, Nat.shiftRight_eq_div_pow]
  exact Nat.div_eq_of_lt <| Nat.pow_lt_pow_right (by decide) hj

theorem congr (h : Shifted d k s) (hd : t.divisor = s.divisor) (hc : t.curbit = s.curbit) :
    Shifted d k t where
  divisor := hd ▸ h.divisor
  curbit  := hc ▸ h.curbit

end Shifted

-- What the loops 1 and 2 leave. If they shifted anything, then the divisor before the last shift was less
-- than the dividend.
structure ShiftedUp (limit : Word) (j d k k' : Nat) (s t : Regs) : Prop extends Shifted d k' t where
  rest : t = { s with divisor := t.divisor, curbit := t.curbit }
  done : ¬(t.divisor < limit ∧ t.divisor < s.dividend)
  dvd  : j ∣ k' - k
  le   : k ≤ k'
  last : k' = k ∨ ∃ i, k' = i + j ∧ d * 2 ^ i < limit.toNat ∧ d * 2 ^ i < s.dividend.toNat

theorem Shifted.shiftLeft (h : Shifted d k s) (hd : 0 < d) (hl : limit.toNat * 2 ^ j ≤ 2 ^ 32)
    (hlt : s.divisor < limit) : Shifted d (k + j)
      { s with divisor := s.divisor <<< j, curbit := s.curbit <<< j } := by
  have hlt : s.divisor.toNat < limit.toNat := hlt
  have hm : d * 2 ^ k * 2 ^ j < 2 ^ 32 :=
    Nat.lt_of_lt_of_le (Nat.mul_lt_mul_of_pos_right (h.divisor ▸ hlt) (Nat.two_pow_pos j)) hl
  have hc : 2 ^ k * 2 ^ j < 2 ^ 32 := by
    refine Nat.lt_of_le_of_lt ?_ hm
    exact Nat.mul_le_mul_right _ <| Nat.le_mul_of_pos_left _ hd
  constructor
  case divisor =>
    rw [BitVec.toNat_shiftLeft, Nat.shiftLeft_eq, h.divisor, Nat.mod_eq_of_lt hm, Nat.pow_add,
      Nat.mul_assoc]
  case curbit =>
    rw [BitVec.toNat_shiftLeft, Nat.shiftLeft_eq, h.curbit, Nat.mod_eq_of_lt hc, Nat.pow_add]

theorem exists_shiftUp (hd : 0 < d) (hj : 0 < j) (hl : limit.toNat * 2 ^ j ≤ 2 ^ 32) (h : Shifted d k s)
    (hf : 32 < fuel + k) : ∃ t k', shiftUp limit j fuel s = some t ∧ ShiftedUp limit j d k k' s t := by
  induction fuel generalizing s k
  case zero =>
    have := h.lt
    omega
  case succ fuel ih =>
    rw [shiftUp]
    split
    case isFalse hs => exact ⟨s, k, rfl, h, rfl, hs, by simp, Nat.le_refl k, .inl rfl⟩
    case isTrue hs =>
      have h' := h.shiftLeft hd hl hs.left
      obtain ⟨t, k', he, ht⟩ := ih h' (by omega)
      have hk : k' - k = k' - (k + j) + j := by have := ht.le; omega
      refine ⟨t, k', he, ht.toShifted, ht.rest, ht.done, hk ▸ (Nat.dvd_add_self_right.mpr ht.dvd),
        Nat.le_of_add_right_le ht.le, .inr ?_⟩
      have h₁ : s.divisor.toNat < limit.toNat := hs.left
      have h₂ : s.divisor.toNat < s.dividend.toNat := hs.right
      rcases ht.last with hk | hi
      · exact ⟨k, hk, h.divisor ▸ h₁, h.divisor ▸ h₂⟩
      · exact hi

structure Aligned (d k : Nat) (s t : Regs) : Prop extends Shifted d k t where
  rest : t = { s with divisor := t.divisor, curbit := t.curbit }
  done : s.dividend.toNat ≤ d * 2 ^ k ∨ 2 ^ 31 ≤ d * 2 ^ k
  -- The divisor was shifted that far because it had to be.
  last : 28 < k → d * 2 ^ (k - 1) < s.dividend.toNat

theorem Aligned.lt (ha : Aligned d k s t) (hd : 0 < d) : s.dividend.toNat < 2 ^ (k + 1) * d := by
  have hp : 2 ^ (k + 1) * d = 2 * (d * 2 ^ k) := by ring
  have hpos : 0 < d * 2 ^ k := Nat.mul_pos hd (Nat.two_pow_pos k)
  have hn := s.dividend.isLt
  have := ha.done
  rw [hp]
  omega

theorem exists_aligned (hd : 0 < d) (h : Shifted d 0 s) (hf : 32 < fuel) :
    ∃ t k, (loop1 fuel s >>= loop2 fuel) = some t ∧ Aligned d k s t := by
  have ⟨u, k₁, hu, h₁⟩ := exists_shiftUp hd (by decide)
    (by decide : (0x10000000 : Word).toNat * 2 ^ 4 ≤ 2 ^ 32) h hf
  have ⟨t, k₂, ht, h₂⟩ := exists_shiftUp hd (by decide)
    (by decide : (0x80000000 : Word).toNat * 2 ^ 1 ≤ 2 ^ 32) h₁.toShifted (Nat.lt_add_right k₁ hf)
  have hrest : u.dividend = s.dividend := by rw [h₁.rest]
  refine ⟨t, k₂, ?_, h₂.toShifted, ?_, ?_, ?_⟩
  · rw [loop1, hu]
    exact ht
  · rw [h₂.rest, h₁.rest]
  · have hdone := h₂.done
    have hv := h₂.divisor
    rw [hrest, BitVec.lt_def, BitVec.lt_def, hv] at hdone
    have hl : (0x80000000 : Word).toNat = 2 ^ 31 := rfl
    rw [hl] at hdone
    omega
  · intro hk
    -- The first loop shifts by 28 bits at most.
    have hk₁ : k₁ ≤ 28 := by
      rcases h₁.last with hz | ⟨i, hi, hlt, _⟩
      · omega
      · have hl : (0x10000000 : Word).toNat = 2 ^ 28 := rfl
        have hle : 2 ^ i ≤ d * 2 ^ i := Nat.le_mul_of_pos_left _ hd
        have hi' : i < 28 := Nat.pow_lt_pow_iff_right (a := 2) (by decide) |>.mp <|
          Nat.lt_of_le_of_lt hle (hl ▸ hlt)
        have := h₁.dvd
        omega
    rcases h₂.last with hz | ⟨i, hi, _, hlt⟩
    · omega
    · rwa [hi, Nat.add_sub_cancel, ← hrest]

section Subtract

@[simp] theorem subtract_divisor : (subtract j bit s).divisor = s.divisor := by
  unfold subtract; split <;> rfl

@[simp] theorem subtract_curbit : (subtract j bit s).curbit = s.curbit := by
  unfold subtract; split <;> rfl

theorem Shifted.subtract (h : Shifted d k s) : Shifted d k (subtract j bit s) :=
  h.congr subtract_divisor subtract_curbit

theorem subtract_partial (h : Shifted d (k + j) s) (hp : Partial n d (k + 1) q s.dividend.toNat) :
    Partial n d k (2 * q + if s.divisor >>> j ≤ s.dividend then 1 else 0)
      (subtract j bit s).dividend.toNat := by
  have hd := h.shiftRight_divisor
  unfold Lib1funcs.subtract
  split
  case isTrue hs =>
    have hs : (s.divisor >>> j).toNat ≤ s.dividend.toNat := hs
    simp only [BitVec.toNat_sub_of_le hs, hd]
    exact hp.take (hd ▸ hs)
  case isFalse hs =>
    have hs : s.dividend.toNat < (s.divisor >>> j).toNat := Nat.not_le.mp hs
    exact hp.skip (hd ▸ hs)

end Subtract

section Loop3

variable {body : Regs → Regs}

theorem loop3_zero (hz : (body s).dividend = 0) : loop3 body (fuel + 1) s = some (body s) :=
  if_pos hz

theorem loop3_last (h : Shifted d k (body s)) (hl : k < 4) :
    ∃ c, loop3 body (fuel + 1) s = some { body s with curbit := c } := by
  by_cases hz : (body s).dividend = 0
  case pos => exact ⟨_, loop3_zero hz⟩
  case neg => exact ⟨_, (if_neg hz).trans <| if_pos <| h.shiftRight_curbit_eq_zero hl⟩

def shiftDown (s : Regs) : Regs :=
  { s with divisor := s.divisor >>> 4, curbit := s.curbit >>> 4 }

theorem Shifted.shiftDown (h : Shifted d (k + 4) s) : Shifted d k (shiftDown s) where
  divisor := h.shiftRight_divisor.trans <| Nat.mul_comm ..
  curbit  := h.shiftRight_curbit

theorem loop3_next (h : Shifted d (k + 4) (body s)) (hz : (body s).dividend ≠ 0) :
    loop3 body (fuel + 1) s = loop3 body fuel (Lib1funcs.shiftDown (body s)) := by
  have hc : (body s).curbit >>> 4 ≠ 0 := by
    intro he
    have hn := h.shiftRight_curbit
    rw [he] at hn
    exact absurd hn.symm <| Nat.ne_of_gt <| Nat.two_pow_pos k
  exact (if_neg hz).trans <| if_neg hc

end Loop3

theorem exists_loops {body : Regs → Regs} (hd : 0 < d) (h : Shifted d 0 s) (hf : 32 < fuel) :
    ∃ t k, loops body fuel s = loop3 body fuel t ∧ Aligned d k s t := by
  have ⟨t, k, ht, ha⟩ := exists_aligned hd h hf
  refine ⟨t, k, ?_, ha⟩
  rw [loops, ← bind_assoc, ht]
  rfl

-- More fuel does not change a result.
section Fuel

theorem shiftUp_succ (h : shiftUp limit j fuel s = some t) : shiftUp limit j (fuel + 1) s = some t := by
  induction fuel generalizing s
  case zero => cases h
  case succ fuel ih =>
    rw [shiftUp] at h ⊢
    split
    case isTrue hs  => exact ih <| by rwa [if_pos hs] at h
    case isFalse hs => rwa [if_neg hs] at h

theorem loop3_succ {body : Regs → Regs} (h : loop3 body fuel s = some t) :
    loop3 body (fuel + 1) s = some t := by
  induction fuel generalizing s
  case zero => cases h
  case succ fuel ih =>
    rw [loop3] at h ⊢
    simp only at h ⊢
    split
    case isTrue hz => rwa [if_pos hz] at h
    case isFalse hz =>
      rw [if_neg hz] at h
      split
      case isTrue hc  => rwa [if_pos hc] at h
      case isFalse hc => exact ih <| by rwa [if_neg hc] at h

theorem loops_succ {body : Regs → Regs} (h : loops body fuel s = some t) :
    loops body (fuel + 1) s = some t := by
  have ⟨u, hu, h⟩ := Option.bind_eq_some_iff.mp h
  have ⟨v, hv, h⟩ := Option.bind_eq_some_iff.mp h
  refine Option.bind_eq_some_iff.mpr ⟨u, shiftUp_succ hu, ?_⟩
  exact Option.bind_eq_some_iff.mpr ⟨v, shiftUp_succ hv, loop3_succ h⟩

end Fuel

theorem ldiv0_eq_none : ldiv0 fuel = none := by
  induction fuel
  case zero       => rfl
  case succ fuel ih => rw [ldiv0, ih]; rfl

theorem rsbmi_eq : rsbmi x y = if x.msb then -y else y := by
  have h : x.slt 0 = x.msb := BitVec.slt_zero_eq_msb
  rw [rsbmi, h]

theorem rsbmi_ne_zero (hy : y ≠ 0) : rsbmi x y ≠ 0 := by
  rw [rsbmi]
  split
  case isTrue  => exact fun hz => hy <| by simpa using hz
  case isFalse => exact hy

end Lib1funcs
