import Mathlib.Algebra.Group.Int.Defs
import Mathlib.Algebra.GroupWithZero.Nat
import Mathlib.Logic.Function.Basic
import Mathlib.Tactic.Common

abbrev Byte := BitVec 8

abbrev Word := BitVec 32

theorem toInt_ofNat {n : Nat} (hn : n < 2 ^ 31) : (BitVec.ofNat 32 n).toInt = n := by
  have hm : (BitVec.ofNat 32 n).toNat = n := Nat.mod_eq_of_lt (by omega)
  rw [BitVec.toInt_eq_toNat_of_lt (by omega), hm]

theorem toInt_add_one {w : Word} (h : w.toInt + 1 < 2 ^ 31) : (w + 1).toInt = w.toInt + 1 := by
  simp only [BitVec.toInt_eq_toNat_cond] at *
  bv_omega

theorem toInt_sub_one {w : Word} (h : -2 ^ 31 < w.toInt) : (w - 1).toInt = w.toInt - 1 := by
  simp only [BitVec.toInt_eq_toNat_cond] at *
  bv_omega

theorem slt_zero {w : Word} : w.slt 0 = decide (w.toInt < 0) :=
  BitVec.slt_eq_decide

theorem zero_sle {w : Word} : (0 : Word).sle w = decide (0 ≤ w.toInt) :=
  BitVec.sle_eq_decide

theorem srem_ofNat {n k : Nat} (hn : n < 2 ^ 31) (hk : k < 2 ^ 31) :
    (BitVec.ofNat 32 n).srem (BitVec.ofNat 32 k) = BitVec.ofNat 32 (n % k) := by
  apply BitVec.eq_of_toInt_eq
  rw [BitVec.toInt_srem, toInt_ofNat hn, toInt_ofNat hk,
    toInt_ofNat (Nat.lt_of_le_of_lt (Nat.mod_le n k) hn), Int.ofNat_tmod]

-- A byte-addressed little-endian memory with 32-bit addresses. An address wraps around at `2 ^ 32`,
-- as it does on the bus.
def Memory := Word → Byte

namespace Memory

def word (m : Memory) (a : Word) : Word :=
  m (a + 3) ++ m (a + 2) ++ m (a + 1) ++ m a

def setByte (m : Memory) (a : Word) (b : Byte) : Memory :=
  fun x => if x = a then b else m x

def setWord (m : Memory) (a v : Word) : Memory :=
  fun x => if x - a < 4 then v.extractLsb' (8 * (x - a).toNat) 8 else m x

def setWords (m : Memory) (a : Word) : List Word → Memory
  | []      => m
  | v :: vs => setWords (m.setWord a v) (a + 4) vs

structure Apart (a b : Word) : Prop where
  left  : 4 ≤ b - a
  right : 4 ≤ a - b

theorem Apart.symm {a b : Word} (h : Apart a b) : Apart b a :=
  ⟨h.right, h.left⟩

theorem Apart.of_le {a b : Word} (h : a.toNat + 4 ≤ b.toNat) (hb : b.toNat + 4 ≤ 2 ^ 32) :
    Apart a b := by
  constructor <;> bv_omega

theorem Apart.of_aligned {a b : Word} (ha : 4 ∣ a.toNat) (hb : 4 ∣ b.toNat) (h : a ≠ b) :
    Apart a b := by
  have h : a.toNat ≠ b.toNat := (h <| BitVec.eq_of_toNat_eq ·)
  rcases Nat.lt_or_gt_of_ne h with h | h
  · exact .of_le (by omega) (by omega)
  · exact .symm <| .of_le (by omega) (by omega)

variable {m m₁ m₂ : Memory} {a b v : Word}

theorem extract_append : v.extractLsb' 24 8 ++ v.extractLsb' 16 8 ++ v.extractLsb' 8 8 ++
    v.extractLsb' 0 8 = v := by
  apply BitVec.eq_of_getLsbD_eq
  intro i hi
  simp only [BitVec.getLsbD_append, BitVec.getLsbD_extractLsb']
  by_cases h₁ : i < 8
  case pos => simp [h₁]
  case neg =>
    by_cases h₂ : i - 8 < 8
    case pos => simp [h₁, h₂, show 8 + (i - 8) = i by omega]
    case neg =>
      by_cases h₃ : i - 8 - 8 < 8
      case pos => simp [h₁, h₂, h₃, show 16 + (i - 8 - 8) = i by omega]
      case neg =>
        have h₄ : i - 8 - 8 - 8 < 8 := by omega
        simp [h₁, h₂, h₃, h₄, show 24 + (i - 8 - 8 - 8) = i by omega]

@[simp]
theorem word_setWord : (m.setWord a v).word a = v := by
  have h₁ : a + 1 - a = 1 := by bv_omega
  have h₂ : a + 2 - a = 2 := by bv_omega
  have h₃ : a + 3 - a = 3 := by bv_omega
  simp only [word, setWord, h₁, h₂, h₃, BitVec.sub_self]
  exact extract_append

theorem word_congr (h : ∀ x, x - a < 4 → m₁ x = m₂ x) : m₁.word a = m₂.word a := by
  simp only [word]
  rw [h a (by bv_omega), h (a + 1) (by bv_omega), h (a + 2) (by bv_omega), h (a + 3) (by bv_omega)]

theorem word_setWord_of_apart (h : Apart a b) : (m.setWord a v).word b = m.word b := by
  apply word_congr
  intro x hx
  have := h.left
  have := h.right
  have hx : ¬(x - a < 4) := by bv_omega
  simp only [setWord, hx, if_false]

theorem setWord_apply_of_not_lt {x : Word} (h : ¬(x - a < 4)) : m.setWord a v x = m x :=
  if_neg h

theorem setByte_apply_of_ne {x : Word} {c : Byte} (h : x ≠ a) : m.setByte a c x = m x := by
  simp [setByte, h]

theorem Apart.add {i j : Nat} (h : i ≠ j) (hi : i < 2 ^ 29) (hj : j < 2 ^ 29) :
    Apart (a + BitVec.ofNat 32 (4 * i)) (a + BitVec.ofNat 32 (4 * j)) := by
  constructor <;> bv_omega

theorem setWords_append {vs ws : List Word} : m.setWords a (vs ++ ws) =
    (m.setWords a vs).setWords (a + BitVec.ofNat 32 (4 * vs.length)) ws := by
  induction vs generalizing m a
  case nil => simp [setWords]
  case cons ih =>
    rw [List.cons_append, setWords, ih, setWords, List.length_cons]
    congr 1
    bv_omega

theorem word_setWords_of_apart {vs : List Word}
    (h : ∀ i < vs.length, Apart (a + BitVec.ofNat 32 (4 * i)) b) :
    (m.setWords a vs).word b = m.word b := by
  induction vs generalizing m a
  case nil => rfl
  case cons ih =>
    have h₀ : Apart a b := by simpa using h 0 (Nat.succ_pos _)
    rw [setWords, ih, word_setWord_of_apart h₀]
    intro i hi
    have := h (i + 1) (Nat.succ_lt_succ hi)
    rwa [show a + 4 + BitVec.ofNat 32 (4 * i) = a + BitVec.ofNat 32 (4 * (i + 1)) by bv_omega]

theorem word_setWords {vs : List Word} {i : Nat} (h : vs.length < 2 ^ 29) (hi : vs[i]? = some v) :
    (m.setWords a vs).word (a + BitVec.ofNat 32 (4 * i)) = v := by
  induction vs generalizing m a i
  case nil => nomatch hi
  case cons w ws ih =>
    have hl : ws.length < 2 ^ 29 := Nat.lt_of_succ_lt h
    rw [setWords]
    cases i
    case zero =>
      have hw : w = v := Option.some.inj hi
      rw [word_setWords_of_apart, Nat.mul_zero, BitVec.add_zero, word_setWord, hw]
      intro j hj
      have := Apart.add (a := a) (i := j + 1) (j := 0) (Nat.succ_ne_zero j) (by omega) (by omega)
      rwa [show a + 4 + BitVec.ofNat 32 (4 * j) = a + BitVec.ofNat 32 (4 * (j + 1)) by bv_omega]
    case succ i =>
      rw [show a + BitVec.ofNat 32 (4 * (i + 1)) = a + 4 + BitVec.ofNat 32 (4 * i) by bv_omega]
      exact ih hl hi

end Memory
