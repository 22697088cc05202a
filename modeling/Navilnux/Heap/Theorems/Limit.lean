import Navilnux.Heap.Theorems.Integrity
import Navilnux.Heap.Walk

namespace Heap

open Arena

structure LimitKept (s : System) (size p : Word) (t : State) : Prop where
  granted : p ≠ 0 → 0 ≤ size.toInt ∧
    s.memmng.heapStart.toNat + 8 ≤ p.toNat ∧ p.toNat + size.toInt ≤ endUsrStackAddr.toNat ∧
    ∀ {q n}, s.owned q = some n →
      p.toNat + size.toNat ≤ q.toNat ∨ q.toNat + n.toNat ≤ p.toNat
  usedEnd : s.memmng.usedEnd.toNat ≤ t.memmng.usedEnd.toNat
  noWrap  : t.memmng.usedEnd = s.memmng.usedEnd ∨
    (t.memmng.usedEnd.toNat : Int) = s.memmng.usedEnd.toNat + size.toInt + 8

-- Either the size is not negative, and `size + sizeof(Dy_mem_header)` is no overflow of an `int`, nor
-- of `used_end` if there is no free block. Or the size is negative, there is no free block, and the header
-- alone does not fit into the heap.
def LimitHolds (s : State) (size : Word) : Prop :=
  (0 ≤ size.toInt ∧ size.toInt + 8 < 2 ^ 31 ∧
    (s.HasFree size ∨ s.memmng.usedEnd.toNat + size.toInt + 8 < 2 ^ 32)) ∨
  (size.toInt < 0 ∧ ¬s.HasFree size ∧
    endUsrStackAddr.toNat < s.memmng.usedEnd.toNat + size.toInt + 8)

variable {s : System} {bs : Arena Word} {m : Memory} {es : List Event} {size p : Word} {t : State}
variable {fuel i : Nat}

theorem toInt_of_nonneg (h : 0 ≤ size.toInt) : size.toInt = size.toNat := by
  simp only [BitVec.toInt_eq_toNat_cond] at *
  omega

namespace Represents

theorem start_toNat (h : Represents s bs) : s.memmng.heapStart.toNat = 0xA2C00000 := by
  rw [h.heapStart]
  rfl

theorem apart_of_free {b : Block Word} {n q : Word} (h : Represents s bs) (hb : At bs i b)
    (ho : b.owner = none) (hq : s.owned q = some n) :
    s.memmng.heapStart.toNat + i + b.size ≤ q.toNat ∨
      q.toNat + n.toNat ≤ s.memmng.heapStart.toNat + i := by
  have ⟨j, c, hc, hco, _, hqe, hn⟩ := h.block hq
  rcases hb.disjoint hc with ⟨-, rfl⟩ | hd | hd
  · exact nomatch ho.symm.trans hco
  · exact .inl <| by omega
  · exact .inr <| by omega

theorem limitKept_reuse_iff (h : Represents s bs) (hi : find (needed size) bs = some i) :
    LimitKept s size (s.memmng.pos i + 8)
      ⟨DyMemHeader.setUsed s.mem (s.memmng.pos i) 1, s.memmng⟩ ↔ LimitHolds s.toState size := by
  have ⟨b, hb, ho, hn⟩ := find_some hi
  have hfree : s.HasFree size := h.hasFree_iff.mpr ⟨b, hb.mem, ho, hn⟩
  have hle := Nat.le_of_add_right_le hb.le
  have hpos := h.pos_toNat hle
  have hs := h.start_toNat
  have hl := hb.le
  have hbound := h.bound
  have hend : endUsrStackAddr.toNat = 0xA4000000 := rfl
  have hp : (s.memmng.pos i + 8).toNat = s.memmng.heapStart.toNat + i + 8 := by bv_omega
  constructor
  · intro hk
    have ⟨h0, _, hsz, _⟩ := hk.granted <| h.pos_add_eight_ne_zero hle
    exact .inl ⟨h0, by omega, .inl hfree⟩
  · rintro (⟨h0, h8, -⟩ | ⟨-, hnf, -⟩)
    · have hsize := toInt_of_nonneg h0
      rw [needed_eq (by omega)] at hn
      refine ⟨fun _ => ⟨h0, by omega, by omega, fun hq => ?_⟩, Nat.le_refl _, .inl rfl⟩
      rcases h.apart_of_free hb ho hq with hd | hd
      · exact .inl <| by omega
      · exact .inr <| by omega
    · exact absurd hfree hnf

theorem usedEnd_range (h : Represents s bs) : 0xA2C00000 ≤ s.memmng.usedEnd.toNat ∧
    s.memmng.usedEnd.toNat ≤ 0xA4000000 := by
  have hs := h.start_toNat
  have hu := h.usedEnd_toNat
  have hb : s.memmng.heapStart.toNat + total bs ≤ 0xA4000000 := h.bound
  omega

theorem usedEnd_add_cases (h : Represents s bs)
    (ht : t.memmng.usedEnd = s.memmng.usedEnd + (size + DyMemHeader.sizeof)) :
    (s.memmng.usedEnd.toNat + size.toInt + 8 < 2 ^ 32 ∧
      (t.memmng.usedEnd.toNat : Int) = s.memmng.usedEnd.toNat + size.toInt + 8) ∨
    (2 ^ 32 ≤ s.memmng.usedEnd.toNat + size.toInt + 8 ∧
      (t.memmng.usedEnd.toNat : Int) = s.memmng.usedEnd.toNat + size.toInt + 8 - 2 ^ 32) := by
  have := h.usedEnd_range
  simp only [ht, DyMemHeader.sizeof, BitVec.toInt_eq_toNat_cond]
  bv_omega

theorem not_hasFree (h : Represents s bs) (hi : find (needed size) bs = none) : ¬s.HasFree size :=
  fun hf =>
    have ⟨b, hb, hfit⟩ := h.hasFree_iff.mp hf
    find_eq_none_iff.mp hi b hb hfit

theorem limitKept_refuse_iff (h : Represents s bs) (hi : find (needed size) bs = none)
    (ht : t.memmng.usedEnd = s.memmng.usedEnd + (size + DyMemHeader.sizeof))
    (he : endUsrStackAddr < t.memmng.usedEnd) :
    LimitKept s size 0 t ↔ LimitHolds s.toState size := by
  have hnf := h.not_hasFree hi
  have hr := h.usedEnd_range
  have hadd := h.usedEnd_add_cases ht
  have he : 0xA4000000 < t.memmng.usedEnd.toNat := he
  have hend : endUsrStackAddr.toNat = 0xA4000000 := rfl
  constructor
  · intro ⟨_, hu, hw⟩
    have hw := hw.resolve_left fun hw => by have := congrArg BitVec.toNat hw; omega
    by_cases h0 : 0 ≤ size.toInt
    case pos => exact .inl ⟨h0, by omega, .inr <| by omega⟩
    case neg => exact .inr ⟨by omega, hnf, by omega⟩
  · rintro (⟨h0, h8, hl⟩ | ⟨h0, -, hl⟩)
    · have hl := hl.resolve_left hnf
      exact ⟨(absurd rfl ·), by omega, .inr <| by omega⟩
    · exact ⟨(absurd rfl ·), by omega, .inr <| by omega⟩

theorem limitKept_grow_iff (h : Represents s bs) (hi : find (needed size) bs = none)
    (ht : t.memmng.usedEnd = s.memmng.usedEnd + (size + DyMemHeader.sizeof))
    (he : ¬(endUsrStackAddr < t.memmng.usedEnd)) :
    LimitKept s size (s.memmng.usedEnd + 8) t ↔ LimitHolds s.toState size := by
  have hnf := h.not_hasFree hi
  have hr := h.usedEnd_range
  have hs := h.start_toNat
  have hadd := h.usedEnd_add_cases ht
  have he : ¬(0xA4000000 < t.memmng.usedEnd.toNat) := he
  have hend : endUsrStackAddr.toNat = 0xA4000000 := rfl
  have hp : (s.memmng.usedEnd + 8).toNat = s.memmng.usedEnd.toNat + 8 := by bv_omega
  constructor
  · intro hk
    have ⟨h0, _, hl, _⟩ := hk.granted (by bv_omega)
    exact .inl ⟨h0, by omega, .inr <| by omega⟩
  · rintro (⟨h0, h8, hl⟩ | ⟨h0, -, hl⟩)
    · have hl := hl.resolve_left hnf
      refine ⟨fun _ => ⟨h0, by omega, by omega, fun {q n} hq => .inr ?_⟩, by omega, .inr <| by omega⟩
      have ⟨j, c, hc, _, _, hqe, hn⟩ := h.block hq
      have := hc.le
      have := h.usedEnd_toNat
      omega
    · omega

theorem limitKept_iff (h : Represents s bs) (he : memMalloc fuel size s.toState = some (p, t)) :
    LimitKept s size p t ↔ LimitHolds s.toState size := by
  have hf := Nat.lt_succ_self bs.length
  cases hi : find (needed size) bs
  case some i =>
    obtain ⟨rfl, rfl⟩ := Prod.mk.inj <| memMalloc_unique he <| h.memMalloc_reuse hf hi
    exact h.limitKept_reuse_iff hi
  case none =>
    have hr := memMalloc_unique he <| h.memMalloc_finish hf hi
    by_cases hl : endUsrStackAddr < s.memmng.usedEnd + (size + DyMemHeader.sizeof)
    case pos =>
      simp only [finish, if_true, hl] at hr
      obtain ⟨rfl, rfl⟩ := Prod.mk.inj hr
      exact h.limitKept_refuse_iff hi rfl hl
    case neg =>
      simp only [finish, if_true, hl, if_false] at hr
      obtain ⟨rfl, rfl⟩ := Prod.mk.inj hr
      exact h.limitKept_grow_iff hi rfl hl

end Represents

-- The limit check of `mem_malloc` withstands a request exactly under this condition.
theorem limit_kept_iff (r : Run Step (.init m) es s) (hg : ∀ e ∈ es, e.Granted) (size : Word) :
    (∃ fuel r, memMalloc fuel size s.toState = some r) ∧
    ∀ {fuel p t}, memMalloc fuel size s.toState = some (p, t) →
      (LimitKept s size p t ↔ LimitHolds s.toState size) := by
  have ⟨bs, _, h⟩ := refines.run .init <| r.restrict hg
  exact ⟨h.terminates size, h.limitKept_iff⟩

theorem limit_kept_too_large : ∃ s : System, Run Step (.init fun _ => 0) [.malloc 8 0xA2C00008] s ∧
    ∀ {fuel p t}, memMalloc fuel 0x40000000 s.toState = some (p, t) → LimitKept s 0x40000000 p t := by
  have r : Run Step (.init fun _ => 0) _ _ := .single <| .malloc (p := 0xA2C00008) 1 8 rfl
  have ⟨_, h⟩ := limit_kept_iff r (by decide) 0x40000000
  exact ⟨_, r, fun hm => h hm |>.mpr <| .inl ⟨by decide, by decide, .inr (by decide)⟩⟩

-- A request for -100 bytes moves `used_end` back, and one for 0x7fffffff bytes wraps it around. Both are
-- granted.
theorem limit_check_defeated :
    (∃ t, memMalloc 1 0xFFFFFF9C (System.init fun _ => 0).toState = some (0xA2C00008, t) ∧
      t.memmng.usedEnd = 0xA2BFFFA4 ∧
      ¬LimitKept (.init fun _ => 0) 0xFFFFFF9C 0xA2C00008 t) ∧
    (∃ t, memMalloc 1 0x7FFFFFFF (System.init fun _ => 0).toState = some (0xA2C00008, t) ∧
      t.memmng.usedEnd = 0x22C00007 ∧
      ¬LimitKept (.init fun _ => 0) 0x7FFFFFFF 0xA2C00008 t) := by
  refine ⟨⟨_, rfl, by decide, fun h => ?_⟩, _, rfl, by decide, fun h => ?_⟩
  · exact absurd h.usedEnd (by decide)
  · exact absurd h.usedEnd (by decide)

end Heap
