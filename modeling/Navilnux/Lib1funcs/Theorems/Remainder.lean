import Navilnux.Lib1funcs.Loops

namespace Lib1funcs

open LongDivision

variable {fuel n d k j : Nat} {s t : Regs} {x y c bit : Word}

def Reduced (n d k : Nat) (s : Regs) : Prop :=
  ∃ q, Partial n d k q s.dividend.toNat

def part (j : Nat) (s : Regs) : Word :=
  if s.divisor >>> j ≤ s.dividend then s.divisor >>> j else 0

theorem subtract_dividend : (subtract j bit s).dividend + part j s = s.dividend := by
  unfold subtract part
  split
  case isTrue  => exact BitVec.sub_add_cancel ..
  case isFalse => exact BitVec.add_zero ..

theorem subtract_result : (subtract j bit s).result =
    s.result ||| if s.divisor >>> j ≤ s.dividend then bit else 0 := by
  unfold subtract
  split
  case isTrue  => rfl
  case isFalse => exact BitVec.or_zero.symm

def overdone (c : Word) (b₁ b₂ b₃ : Bool) : Word :=
  (if b₁ then c.rotateRight 1 else 0) ||| (if b₂ then c.rotateRight 2 else 0) |||
    if b₃ then c.rotateRight 3 else 0

-- The fix-up adds what was subtracted too much, and nothing else.
theorem overdone_iff : ∀ k < 30, ∀ b₁ b₂ b₃ : Bool,
    let c : Word := BitVec.ofNat 32 (2 ^ k)
    let o := overdone c b₁ b₂ b₃ &&& 0xe0000000
    (o &&& c.rotateRight 1 ≠ 0 ↔ k < 1 ∧ b₁) ∧ (o &&& c.rotateRight 2 ≠ 0 ↔ k < 2 ∧ b₂) ∧
    (o &&& c.rotateRight 3 ≠ 0 ↔ k < 3 ∧ b₃) := by
  decide +kernel

def reduce₀ (s : Regs) : Regs :=
  subtract 0 0 { s with result := 0 }

def reduce₁ (s : Regs) : Regs :=
  subtract 1 (s.curbit.rotateRight 1) (reduce₀ s)

def reduce₂ (s : Regs) : Regs :=
  subtract 2 (s.curbit.rotateRight 2) (reduce₁ s)

theorem reduce_eq : reduce s =
    { subtract 3 (s.curbit.rotateRight 3) (reduce₂ s) with ip := s.curbit } := by
  simp [reduce, reduce₂, reduce₁, reduce₀]

section AddBack

variable {o : Word}

@[simp] theorem addBack_ip : (addBack o j s).ip = s.ip := by
  unfold addBack; split <;> rfl

@[simp] theorem addBack_divisor : (addBack o j s).divisor = s.divisor := by
  unfold addBack; split <;> rfl

theorem addBack_dividend : (addBack o j s).dividend =
    s.dividend + if o &&& s.ip.rotateRight j ≠ 0 then s.divisor >>> j else 0 := by
  unfold addBack
  split
  case isTrue  => rfl
  case isFalse => exact (BitVec.add_zero _).symm

theorem fixUp_eq (ho : o = s.result &&& 0xe0000000) : fixUp s = s.dividend +
    (if o &&& s.ip.rotateRight 3 ≠ 0 then s.divisor >>> 3 else 0) +
    (if o &&& s.ip.rotateRight 2 ≠ 0 then s.divisor >>> 2 else 0) +
    (if o &&& s.ip.rotateRight 1 ≠ 0 then s.divisor >>> 1 else 0) := by
  rw [fixUp, ← ho]
  by_cases hz : o = 0
  case pos => simp [hz]
  case neg => simp only [if_neg hz, addBack_dividend, addBack_ip, addBack_divisor]

end AddBack

namespace Shifted

variable (h : Shifted d k s)
include h

theorem reduce₀ : Shifted d k (reduce₀ s) :=
  (h.congr rfl rfl : Shifted d k { s with result := 0 }).subtract

theorem reduce₁ : Shifted d k (reduce₁ s) :=
  h.reduce₀.subtract

theorem reduce₂ : Shifted d k (reduce₂ s) :=
  h.reduce₁.subtract

theorem reduce : Shifted d k (reduce s) := by
  rw [reduce_eq]
  exact h.reduce₂.subtract.congr rfl rfl

end Shifted

@[simp] theorem reduce₀_divisor : (reduce₀ s).divisor = s.divisor :=
  subtract_divisor

@[simp] theorem reduce₁_divisor : (reduce₁ s).divisor = s.divisor :=
  subtract_divisor.trans reduce₀_divisor

@[simp] theorem reduce₂_divisor : (reduce₂ s).divisor = s.divisor :=
  subtract_divisor.trans reduce₁_divisor

theorem reduce_divisor : (reduce s).divisor = s.divisor := by
  rw [reduce_eq]
  exact subtract_divisor.trans reduce₂_divisor

theorem reduce_result : (reduce s).result = overdone s.curbit
    (s.divisor >>> 1 ≤ (reduce₀ s).dividend) (s.divisor >>> 2 ≤ (reduce₁ s).dividend)
    (s.divisor >>> 3 ≤ (reduce₂ s).dividend) := by
  have h₀ : (reduce₀ s).result = 0 := by simp [reduce₀, subtract_result]
  have h₁ : (reduce₁ s).result = if s.divisor >>> 1 ≤ (reduce₀ s).dividend then
      s.curbit.rotateRight 1 else 0 := by
    rw [reduce₁, subtract_result, h₀, reduce₀_divisor]
    exact BitVec.zero_or
  rw [reduce_eq, subtract_result, reduce₂, subtract_result, h₁, ← reduce₂]
  simp [overdone]

theorem fixUp_reduce (h : Shifted d k s) (hk : k < 30) :
    fixUp { reduce s with curbit := c } = (reduce s).dividend +
      (if k < 3 then part 3 (reduce₂ s) else 0) + (if k < 2 then part 2 (reduce₁ s) else 0) +
      (if k < 1 then part 1 (reduce₀ s) else 0) := by
  have ⟨h₁, h₂, h₃⟩ := overdone_iff k hk (s.divisor >>> 1 ≤ (reduce₀ s).dividend)
    (s.divisor >>> 2 ≤ (reduce₁ s).dividend) (s.divisor >>> 3 ≤ (reduce₂ s).dividend)
  have hi : (reduce s).ip = BitVec.ofNat 32 (2 ^ k) := by rw [reduce_eq]; exact h.curbit_eq
  rw [h.curbit_eq.symm] at h₁ h₂ h₃ hi
  rw [fixUp_eq rfl]
  simp only [reduce_result, hi, h₁, h₂, h₃, reduce_divisor, part, reduce₀_divisor, reduce₁_divisor,
    reduce₂_divisor, decide_eq_true_eq, ite_and]

namespace Reduced

theorem subtract (h : Shifted d (k + j) s) (hk : Reduced n d (k + 1) s) :
    Reduced n d k (subtract j bit s) :=
  have ⟨_, hp⟩ := hk
  ⟨_, subtract_partial h hp⟩

theorem mod_eq (hk : Reduced n d 0 s) : s.dividend.toNat = n % d :=
  have ⟨_, hp⟩ := hk
  hp.mod_of_zero.symm

theorem mod_eq_zero (hk : Reduced n d k s) (hz : s.dividend = 0) : n % d = 0 := by
  have ⟨q, hp⟩ := hk
  rw [hz] at hp
  rw [hp.mod]
  exact Nat.zero_mod d

theorem reduce₀ (h : Shifted d k s) (hk : Reduced n d (k + 1) s) : Reduced n d k (reduce₀ s) :=
  .subtract (j := 0) (h.congr rfl rfl) hk

theorem reduce₁ (h : Shifted d (k + 1) s) (hk : Reduced n d (k + 2) s) : Reduced n d k (reduce₁ s) :=
  hk.reduce₀ h |>.subtract h.reduce₀

theorem reduce₂ (h : Shifted d (k + 2) s) (hk : Reduced n d (k + 3) s) : Reduced n d k (reduce₂ s) :=
  hk.reduce₁ h |>.subtract h.reduce₁

theorem reduce (h : Shifted d (k + 3) s) (hk : Reduced n d (k + 4) s) : Reduced n d k (reduce s) := by
  rw [reduce_eq]
  exact hk.reduce₂ h |>.subtract h.reduce₂

end Reduced

theorem reduce_dividend : (reduce s).dividend + part 3 (reduce₂ s) = (reduce₂ s).dividend := by
  rw [reduce_eq]
  exact subtract_dividend

theorem fixUp_last (h : Shifted d k s) (hk : Reduced n d (k + 1) s) (hl : k < 4) :
    (fixUp { reduce s with curbit := c }).toNat = n % d := by
  have h₂ : (reduce₂ s).dividend + part 2 (reduce₁ s) = (reduce₁ s).dividend := subtract_dividend
  have h₁ : (reduce₁ s).dividend + part 1 (reduce₀ s) = (reduce₀ s).dividend := subtract_dividend
  rw [fixUp_reduce h (Nat.lt_trans hl (by decide))]
  match k, hl with
  | 0, _ =>
    simp only [Nat.reduceLT, if_true, reduce_dividend, h₂, h₁]
    exact hk.reduce₀ h |>.mod_eq
  | 1, _ =>
    simp only [Nat.reduceLT, if_true, if_false, reduce_dividend, h₂, BitVec.ofNat_eq_ofNat, BitVec.add_zero]
    exact hk.reduce₁ h |>.mod_eq
  | 2, _ =>
    simp only [Nat.reduceLT, if_true, if_false, reduce_dividend, BitVec.ofNat_eq_ofNat, BitVec.add_zero]
    exact hk.reduce₂ h |>.mod_eq
  | 3, _ =>
    simp only [Nat.reduceLT, if_false, BitVec.ofNat_eq_ofNat, BitVec.add_zero]
    exact hk.reduce h |>.mod_eq

-- If the loop ends early, then nothing is added, unless the divisor was shifted very far.
theorem fixUp_early (h : Shifted d (k + 4) s) (hl : k + 4 < 30) (hz : (reduce s).dividend = 0) :
    fixUp (reduce s) = 0 := by
  have hc : fixUp (reduce s) = _ := fixUp_reduce (c := (reduce s).curbit) h hl
  have h₁ : ¬(k + 4 < 1) := by omega
  have h₂ : ¬(k + 4 < 2) := by omega
  have h₃ : ¬(k + 4 < 3) := by omega
  rw [hc, if_neg h₁, if_neg h₂, if_neg h₃, hz]
  rfl

theorem exists_loop3_reduce (h : Shifted d k s) (hk : Reduced n d (k + 1) s) (hl : k < 30)
    (hf : k < 4 * fuel) : ∃ t, loop3 reduce fuel s = some t ∧ (fixUp t).toNat = n % d := by
  induction fuel generalizing s k
  case zero => omega
  case succ fuel ih =>
    by_cases hk' : k < 4
    case pos =>
      have ⟨_, he⟩ : ∃ c, loop3 reduce (fuel + 1) s = some { reduce s with curbit := c } :=
        loop3_last h.reduce hk'
      exact ⟨_, he, fixUp_last h hk hk'⟩
    case neg =>
      obtain ⟨k, rfl⟩ : ∃ i, k = i + 4 := ⟨k - 4, by omega⟩
      have hr : Reduced n d (k + 1) (reduce s) := hk.reduce h
      by_cases hz : (reduce s).dividend = 0
      case pos =>
        refine ⟨_, loop3_zero hz, ?_⟩
        rw [fixUp_early h hl hz, hr.mod_eq_zero hz]
        rfl
      case neg =>
        rw [loop3_next h.reduce hz]
        exact ih h.reduce.shiftDown hr (by omega) (by omega)

def multiples (d : Word) (e : Nat) (qs : List Word) : List (Word × Word) :=
  qs.map fun q : Word => (d * (q <<< e), d)

-- The operands for which the fix-up adds something after the loop ended early, since the bit in `ip` is one
-- of the top two bits.
def spoiled : List (Word × Word) :=
  multiples 1 27 [5, 6, 7] ++
  multiples 1 28 [5, 6, 7, 10, 11, 12, 13, 14, 15] ++
  multiples 2 27 [5, 6, 7, 12, 13, 14, 15] ++
  multiples 3 27 [5, 6, 7]

theorem remainder_mono {fuel' : Nat} (h : remainder fuel s = some x) (hf : fuel ≤ fuel') :
    remainder fuel' s = some x := by
  induction fuel', hf using Nat.le_induction
  case base => exact h
  case succ ih =>
    rw [remainder] at ih ⊢
    split
    case isTrue hlt  => rwa [if_pos hlt] at ih
    case isFalse hlt =>
      rw [if_neg hlt] at ih
      have ⟨t, ht, hx⟩ := Option.bind_eq_some_iff.mp ih
      exact Option.bind_eq_some_iff.mpr ⟨t, loops_succ ht, hx⟩

def operands (x y : Word) : Regs where
  dividend := x
  divisor  := y
  result   := 0
  curbit   := 1
  ip       := 0

theorem remainder_spoiled : ∀ p ∈ spoiled,
    (remainder 33 (operands p.1 p.2)).isSome ∧
    remainder 33 (operands p.1 p.2) ≠ some (p.1 % p.2) := by
  have h : spoiled.all fun p => (remainder 33 (operands p.1 p.2)).isSome ∧
      remainder 33 (operands p.1 p.2) ≠ some (p.1 % p.2) := by decide +kernel
  exact fun p hp => of_decide_eq_true <| List.all_eq_true.mp h p hp

def shifted (n d k : Nat) : Regs :=
  { operands (BitVec.ofNat 32 n) (BitVec.ofNat 32 (d * 2 ^ k)) with curbit := BitVec.ofNat 32 (2 ^ k) }

def Settled (n d k : Nat) : Prop :=
  (BitVec.ofNat 32 n, BitVec.ofNat 32 d) ∈ spoiled ∨ fixUp (reduce (shifted n d k)) = 0

instance {n d k : Nat} : Decidable (Settled n d k) :=
  inferInstanceAs <| Decidable (_ ∨ _)

-- The quotient has four high bits and is not too small.
set_option synthInstance.maxSize 512 in
theorem settled : ∀ i < 2, ∀ d < 3, ∀ q < 11,
    (d + 1) * 2 ^ (i + 30) < 2 ^ 32 → q < 4 ∨ 2 ^ 31 ≤ (d + 1) * 2 ^ (i + 30) →
    (q + 5) * 2 ^ (i + 27) * (d + 1) < 2 ^ 32 →
    Settled ((q + 5) * 2 ^ (i + 27) * (d + 1)) (d + 1) (i + 30) := by
  decide +kernel

theorem Aligned.eq_shifted (ha : Aligned s.divisor.toNat k s t) (hr : s.result = 0) (hi : s.ip = 0) :
    t = shifted s.dividend.toNat s.divisor.toNat k := by
  have hd : t.divisor = BitVec.ofNat 32 (s.divisor.toNat * 2 ^ k) := by
    rw [← ha.divisor, BitVec.ofNat_toNat, BitVec.setWidth_eq]
  rw [ha.rest, ha.curbit_eq, hd, hr, hi, shifted, operands, BitVec.ofNat_toNat, BitVec.setWidth_eq]

theorem fixUp_eq_zero {i : Nat} (ha : Aligned s.divisor.toNat (i + 27 + 3) s t)
    (hred : Reduced s.dividend.toNat s.divisor.toNat (i + 27) (reduce t)) (hz : (reduce t).dividend = 0)
    (hr : s.result = 0) (hi : s.ip = 0) (hs : (s.dividend, s.divisor) ∉ spoiled) :
    fixUp (reduce t) = 0 := by
  have ⟨q, hp⟩ := hred
  rw [hz] at hp
  have hn : s.dividend.toNat = q * 2 ^ (i + 27) * s.divisor.toNat := hp.eq
  have hpos : 0 < s.divisor.toNat := Nat.pos_of_mul_pos_left hp.lt
  have hd := ha.mul_lt
  have hk := ha.toShifted.lt
  have hlt : q < 16 := by
    have h := ha.lt hpos
    have he : 2 ^ (i + 27 + 3 + 1) * s.divisor.toNat = 16 * 2 ^ (i + 27) * s.divisor.toNat := by ring
    rw [hn, he] at h
    exact Nat.lt_of_mul_lt_mul_right <| Nat.lt_of_mul_lt_mul_right h
  have hgt : 4 < q := by
    have h := ha.last (by omega)
    have he : s.divisor.toNat * 2 ^ (i + 27 + 3 - 1) = 4 * 2 ^ (i + 27) * s.divisor.toNat := by
      rw [Nat.add_sub_cancel (n := i + 29) (m := 1)]
      ring
    rw [hn, he] at h
    exact Nat.lt_of_mul_lt_mul_right <| Nat.lt_of_mul_lt_mul_right h
  have hd3 : s.divisor.toNat < 4 := by
    have hp : 2 ^ 30 ≤ 2 ^ (i + 27 + 3) := Nat.pow_le_pow_right (by decide) (by omega)
    have := Nat.mul_le_mul_left s.divisor.toNat hp
    omega
  obtain ⟨q, rfl⟩ : ∃ j, q = j + 5 := ⟨q - 5, by omega⟩
  obtain ⟨d, hd'⟩ : ∃ j, s.divisor.toNat = j + 1 := ⟨s.divisor.toNat - 1, by omega⟩
  have hx := s.dividend.isLt
  rw [hn] at hx
  have hdone : q < 4 ∨ 2 ^ 31 ≤ s.divisor.toNat * 2 ^ (i + 30) := by
    refine ha.done.imp_left fun h => ?_
    have he : s.divisor.toNat * 2 ^ (i + 27 + 3) = 8 * 2 ^ (i + 27) * s.divisor.toNat := by ring
    rw [hn, he] at h
    have h := Nat.le_of_mul_le_mul_right (Nat.le_of_mul_le_mul_right h hpos) (Nat.two_pow_pos _)
    omega
  rw [hd'] at hx hd hn hdone
  have h := settled i (by omega) d (by omega) q (by omega) hd hdone hx
  rw [← hn, ← hd'] at h
  rcases h with h | h
  · rw [BitVec.ofNat_toNat, BitVec.ofNat_toNat, BitVec.setWidth_eq, BitVec.setWidth_eq] at h
    exact absurd h hs
  · rw [ha.eq_shifted hr hi]
    exact h

theorem remainder_eq (hy : s.divisor ≠ 0) (hr : s.result = 0) (hc : s.curbit = 1) (hi : s.ip = 0)
    (hf : 32 < fuel) (hs : (s.dividend, s.divisor) ∉ spoiled) :
    remainder fuel s = some (s.dividend % s.divisor) := by
  have hd : 0 < s.divisor.toNat := Nat.pos_of_ne_zero fun hz => hy <| BitVec.eq_of_toNat_eq hz
  rw [remainder]
  split
  case isTrue hlt =>
    have hq : s.dividend.toNat % s.divisor.toNat = s.dividend.toNat := Nat.mod_eq_of_lt hlt
    exact congrArg some <| BitVec.eq_of_toNat_eq <| (BitVec.toNat_umod.trans hq).symm
  case isFalse =>
    have ⟨t, k, he, ha⟩ : ∃ t k, loops reduce fuel s = loop3 reduce fuel t ∧ Aligned _ k s t :=
      exists_loops hd ⟨(Nat.mul_one _).symm, hc ▸ rfl⟩ hf
    have hk : Reduced s.dividend.toNat s.divisor.toNat (k + 1) t := by
      refine ⟨0, ?_⟩
      rw [ha.rest]
      exact .init (ha.lt hd)
    have hlt := ha.toShifted.lt
    have hmod : ∃ t, loops reduce fuel s = some t ∧
        (fixUp t).toNat = s.dividend.toNat % s.divisor.toNat := by
      rw [he]
      by_cases hl : k < 30
      case pos => exact exists_loop3_reduce ha.toShifted hk hl (by omega)
      case neg =>
        obtain ⟨fuel, rfl⟩ : ∃ i, fuel = i + 1 := ⟨fuel - 1, by omega⟩
        obtain ⟨i, rfl⟩ : ∃ i, k = i + 27 + 3 := ⟨k - 30, by omega⟩
        have hred : Reduced s.dividend.toNat s.divisor.toNat (i + 27) (reduce t) :=
          hk.reduce ha.toShifted
        by_cases hz : (reduce t).dividend = 0
        case pos =>
          refine ⟨_, loop3_zero hz, ?_⟩
          rw [fixUp_eq_zero ha hred hz hr hi hs, hred.mod_eq_zero hz]
          rfl
        case neg =>
          rw [loop3_next (k := i + 26) ha.toShifted.reduce hz]
          exact exists_loop3_reduce ha.toShifted.reduce.shiftDown hred (by omega) (by omega)
    have ⟨u, hu, hq⟩ := hmod
    rw [hu]
    exact congrArg some <| BitVec.eq_of_toNat_eq <| hq.trans BitVec.toNat_umod.symm

theorem exists_remainder (hy : y ≠ 0) (hf : 32 < fuel) :
    ∃ r, remainder fuel (operands x y) = some r ∧ (r = x % y ↔ (x, y) ∉ spoiled) := by
  by_cases hs : (x, y) ∈ spoiled
  case pos =>
    have ⟨hr, hne⟩ := remainder_spoiled _ hs
    have ⟨r, hr⟩ := Option.isSome_iff_exists.mp hr
    rw [hr] at hne
    exact ⟨r, remainder_mono hr hf, iff_of_false (fun he => hne <| congrArg some he) (not_not.mpr hs)⟩
  case neg =>
    have hr : remainder fuel (operands x y) = _ := remainder_eq (s := operands x y) hy rfl rfl rfl hf hs
    exact ⟨_, hr, iff_of_true rfl hs⟩

theorem rsbmi_inj {z : Word} (h : rsbmi z x = rsbmi z y) : x = y := by
  rw [rsbmi, rsbmi] at h
  split at h
  case isTrue  => exact BitVec.neg_inj.mp h
  case isFalse => exact h

theorem srem_eq_rsbmi : x.srem y = rsbmi x (rsbmi x x % rsbmi y y) := by
  simp only [rsbmi_eq, BitVec.srem_eq]
  cases x.msb <;> cases y.msb <;> rfl

theorem exists_modsi3 (hy : y ≠ 0) (hf : 32 < fuel) :
    ∃ r, modsi3 fuel x y = some r ∧ (r = x.srem y ↔ (rsbmi x x, rsbmi y y) ∉ spoiled) := by
  have hy' : rsbmi y y ≠ 0 := rsbmi_ne_zero hy
  have ⟨r, hr, hi⟩ := exists_remainder (x := rsbmi x x) hy' hf
  have hr : remainder fuel ⟨rsbmi x x, rsbmi y y, 0, 1, 0⟩ = some r := hr
  refine ⟨rsbmi x r, ?_, ?_⟩
  · rw [modsi3, if_neg hy, hr]
    rfl
  · rw [← hi, srem_eq_rsbmi]
    exact ⟨rsbmi_inj, congrArg (rsbmi x)⟩

-- The routines for `%` return for all operands but the divisor 0, and except for a few operands they return
-- the remainder.
theorem remainders_correct_iff (hf : 32 < fuel) :
    (y = 0 → umodsi3 fuel x y = none ∧ modsi3 fuel x y = none) ∧
    (y ≠ 0 → (∃ r, umodsi3 fuel x y = some r ∧ (r = x % y ↔ (x, y) ∉ spoiled)) ∧
      ∃ r, modsi3 fuel x y = some r ∧ (r = x.srem y ↔ (rsbmi x x, rsbmi y y) ∉ spoiled)) := by
  constructor
  · intro hy
    rw [umodsi3, modsi3, if_pos hy, if_pos hy]
    exact ⟨ldiv0_eq_none, ldiv0_eq_none⟩
  · intro hy
    refine ⟨?_, exists_modsi3 hy hf⟩
    rw [umodsi3, if_neg hy]
    exact exists_remainder hy hf

-- The remainder of 0xc0000000 and 1 is not 0, and the one of 0x60000000 and 1 is not either.
theorem remainders_correct_iff_one : umodsi3 33 5 0 = none ∧
    (∃ r, umodsi3 33 0xc0000000 1 = some r ∧ r ≠ 0xc0000000 % 1) ∧
    ∃ r, modsi3 33 0x60000000 1 = some r ∧ r ≠ (0x60000000 : Word).srem 1 := by
  have hf : 32 < 33 := by decide
  have ⟨hz, _⟩ := remainders_correct_iff (x := 5) (y := 0) hf
  have ⟨_, hu⟩ := remainders_correct_iff (x := 0xc0000000) (y := 1) hf
  have ⟨_, hs⟩ := remainders_correct_iff (x := 0x60000000) (y := 1) hf
  have ⟨⟨r, hr, hi⟩, _⟩ := hu (by decide)
  have ⟨_, r', hr', hi'⟩ := hs (by decide)
  refine ⟨(hz rfl).left, ⟨r, hr, fun he => ?_⟩, r', hr', fun he => ?_⟩
  · exact hi.mp he (by decide)
  · exact hi'.mp he (by decide)

end Lib1funcs
