import Navilnux.Heap.Tiles

namespace Heap

open Arena

variable {α : Type} {m : Memory} {bs : Arena α} {b : Block α} {n fuel : Nat}

-- The bytes that the loop of `mem_malloc` looks for. A negative number fits everywhere.
def needed (size : Word) : Nat :=
  (size + DyMemHeader.sizeof).toInt.toNat

theorem fits_iff {a reqSize : Word} (h : Header m a b) (hb : b.size < 2 ^ 31) :
    DyMemHeader.used m a = 0 ∧ reqSize.sle (DyMemHeader.size m a) ↔
    b.owner.isNone ∧ reqSize.toInt.toNat ≤ b.size := by
  apply and_congr
  · rw [h.used]
    cases b.owner <;> simp
  · rw [h.size, BitVec.sle_eq_decide, decide_eq_true_eq, toInt_ofNat hb, Int.toNat_le]

theorem search_eq {a reqSize : Word} (h : Row m a bs) (hf : bs.length < fuel) :
    search m (a + BitVec.ofNat 32 (total bs)) reqSize fuel a = some (
      match find reqSize.toInt.toNat bs with
      | some i => (a + BitVec.ofNat 32 i, DyMemHeader.setUsed m (a + BitVec.ofNat 32 i) 1)
      | none   => (0, m)
    ) := by
  have ⟨fuel, he⟩ := Nat.exists_eq_add_one_of_ne_zero (Nat.ne_zero_of_lt hf)
  subst he
  induction bs generalizing a fuel
  case nil => simp [search, find]
  case cons b bs ih =>
    simp only [search, if_neg h.ne_end, fits_iff h.head h.head_size.right, find]
    split
    case isTrue => simp
    case isFalse =>
      have hl : bs.length < fuel := Nat.lt_of_succ_lt_succ hf
      have ⟨fuel, he⟩ := Nat.exists_eq_add_one_of_ne_zero (Nat.ne_zero_of_lt hl)
      subst he
      rw [h.head.size, ← Row.tail_end, ih h.tail fuel hl]
      cases find reqSize.toInt.toNat bs <;> simp [BitVec.ofNat_add, BitVec.add_assoc]

theorem search_mono {usedEnd reqSize a : Word} {k : Nat} {r : Word × Memory}
    (h : search m usedEnd reqSize fuel a = some r) :
    search m usedEnd reqSize (fuel + k) a = some r := by
  induction fuel generalizing a
  case zero => nomatch h
  case succ fuel ih =>
    rw [Nat.add_right_comm]
    rw [search] at *
    split_ifs at * <;> simp_all

theorem memMalloc_mono {s : State} {size : Word} {k : Nat} {r : Word × State}
    (h : memMalloc fuel size s = some r) : memMalloc (fuel + k) size s = some r := by
  have ⟨_, hs, hr⟩ := Option.map_eq_some_iff.mp h
  exact Option.map_eq_some_iff.mpr ⟨_, search_mono hs, hr⟩

theorem memMalloc_pool {s t : State} {size p : Word} (h : memMalloc fuel size s = some (p, t)) :
    t.memmng.freeMemPool = s.memmng.freeMemPool := by
  have ⟨r, _, hr⟩ := Option.map_eq_some_iff.mp h
  rw [← show (finish (size + DyMemHeader.sizeof) s.memmng r.1 r.2).2 = t from congrArg Prod.snd hr]
  simp only [finish]
  split
  case isTrue  => split <;> rfl
  case isFalse => rfl

theorem memMalloc_unique {s : State} {size : Word} {k : Nat} {r r' : Word × State}
    (h : memMalloc fuel size s = some r) (h' : memMalloc k size s = some r') : r = r' := by
  have h := memMalloc_mono (k := k) h
  have h' := memMalloc_mono (k := fuel) h'
  rw [Nat.add_comm] at h'
  exact Option.some.inj <| h.symm.trans h'

theorem add_sizeof {size : Word} : size + DyMemHeader.sizeof = BitVec.ofNat 32 (size.toNat + 8) := by
  rw [BitVec.ofNat_add, BitVec.ofNat_toNat, BitVec.setWidth_eq]
  rfl

theorem toNat_le_of_le_maxSize {size : Word} (h : size ≤ maxSize) :
    size.toNat + 8 ≤ 0x01400000 := by
  have h : size.toNat ≤ maxSize.toNat := h
  have : maxSize.toNat = 0x01400000 - 8 := rfl
  omega

theorem needed_eq {size : Word} (h : size.toNat + 8 < 2 ^ 31) : needed size = size.toNat + 8 := by
  rw [needed, add_sizeof, toInt_ofNat h, Int.toNat_natCast]

theorem needed_of_le_maxSize {size : Word} (h : size ≤ maxSize) : needed size = size.toNat + 8 :=
  needed_eq <| Nat.lt_of_le_of_lt (toNat_le_of_le_maxSize h) (by decide)

namespace Tiles

variable {s : State} {size : Word} {i : Nat}

theorem search (h : Tiles s bs) (hf : bs.length < fuel) :
    search s.mem s.memmng.usedEnd (size + DyMemHeader.sizeof) fuel s.memmng.heapStart = some (
      match find (needed size) bs with
      | some i => (s.memmng.pos i, DyMemHeader.setUsed s.mem (s.memmng.pos i) 1)
      | none   => (0, s.mem)
    ) := by
  rw [h.usedEnd]
  exact search_eq h.row hf

theorem search_unique {r : Word × Memory} (h : Tiles s bs)
    (hr : Heap.search s.mem s.memmng.usedEnd (size + DyMemHeader.sizeof) fuel s.memmng.heapStart =
      some r) :
    r = match find (needed size) bs with
      | some i => (s.memmng.pos i, DyMemHeader.setUsed s.mem (s.memmng.pos i) 1)
      | none   => (0, s.mem) := by
  have hr := search_mono (k := bs.length + 1) hr
  rw [h.search (by omega)] at hr
  exact Option.some.inj hr.symm

theorem memMalloc_reuse (h : Tiles s bs) (hf : bs.length < fuel) (hi : find (needed size) bs = some i) :
    memMalloc fuel size s =
      some (s.memmng.pos i + 8, ⟨DyMemHeader.setUsed s.mem (s.memmng.pos i) 1, s.memmng⟩) := by
  have ⟨b, hb, _⟩ := find_some hi
  have hp : s.memmng.pos i ≠ 0 := h.pos_ne_zero <| Nat.le_of_add_right_le hb.le
  rw [memMalloc, h.search hf, hi, Option.map_some, finish, if_neg hp]
  rfl

theorem memMalloc_finish (h : Tiles s bs) (hf : bs.length < fuel) (hi : find (needed size) bs = none) :
    memMalloc fuel size s = some (finish (size + DyMemHeader.sizeof) s.memmng 0 s.mem) := by
  rw [memMalloc, h.search hf, hi, Option.map_some]

theorem terminates (h : Tiles s bs) (size : Word) : ∃ fuel r, memMalloc fuel size s = some r := by
  have hf := Nat.lt_succ_self bs.length
  cases hi : find (needed size) bs
  case none   => exact ⟨_, _, h.memMalloc_finish hf hi⟩
  case some i => exact ⟨_, _, h.memMalloc_reuse hf hi⟩

theorem usedEnd_toNat (h : Tiles s bs) :
    s.memmng.usedEnd.toNat = s.memmng.heapStart.toNat + total bs :=
  h.usedEnd ▸ h.pos_toNat (Nat.le_refl _)

theorem limit_iff (h : Tiles s bs) : total bs + (size.toNat + 8) ≤ s.memmng.limit ↔
    s.memmng.usedEnd.toNat + size.toNat + 8 ≤ endUsrStackAddr.toNat := by
  have := h.bound
  have := h.usedEnd_toNat
  simp only [NavilMemMng.limit]
  omega

theorem pos_add_eight_ne_zero (h : Tiles s bs) (hi : i ≤ total bs) : s.memmng.pos i + 8 ≠ 0 := by
  have := h.pos_toNat hi
  have := h.bound
  simp only [endUsrStackAddr] at *
  bv_omega

theorem end_lt_iff (h : Tiles s bs) (hn : n ≤ 0x01400000) :
    endUsrStackAddr < s.memmng.usedEnd + BitVec.ofNat 32 n ↔ ¬total bs + n ≤ s.memmng.limit := by
  have := h.bound
  have := h.usedEnd
  simp only [NavilMemMng.limit, NavilMemMng.pos, endUsrStackAddr] at *
  bv_omega

theorem bound_append (h : Tiles s bs) (hl : total bs + n ≤ s.memmng.limit) :
    s.memmng.heapStart.toNat + (total bs + n) ≤ endUsrStackAddr.toNat := by
  have := h.bound
  simp only [NavilMemMng.limit] at hl
  omega

theorem not_end_lt_of_le (h : Tiles s bs) (hn : size ≤ maxSize)
    (hl : total bs + (size.toNat + 8) ≤ s.memmng.limit) :
    ¬(endUsrStackAddr < s.memmng.usedEnd + (size + DyMemHeader.sizeof)) := by
  rw [add_sizeof]
  exact h.end_lt_iff (toNat_le_of_le_maxSize hn) |>.not.mpr <| not_not_intro hl

theorem not_end_lt (h : Tiles s bs) : ¬(endUsrStackAddr < s.memmng.usedEnd + 0) := by
  have := h.bound
  have := h.usedEnd_toNat
  bv_omega

-- A request for -8 bytes writes a header of the size 0 at the end of the heap.
theorem memMalloc_empty (h : Tiles s bs) (hf : bs.length < fuel)
    (hi : find (needed (-8)) bs = none) :
    memMalloc fuel (-8) s = some (s.memmng.usedEnd + 8, {
      mem    := DyMemHeader.setSize (DyMemHeader.setUsed s.mem s.memmng.usedEnd 1) s.memmng.usedEnd 0
      memmng := s.memmng
    }) := by
  have hr : (-8 : Word) + DyMemHeader.sizeof = 0 := rfl
  have hu : s.memmng.usedEnd + 0 = s.memmng.usedEnd := BitVec.add_zero _
  rw [h.memMalloc_finish hf hi, hr, finish, if_pos rfl, if_neg h.not_end_lt, hu]
  rfl

theorem memMalloc_grow (h : Tiles s bs) (hn : size ≤ maxSize) (hf : bs.length < fuel)
    (hi : find (needed size) bs = none) (hl : total bs + (size.toNat + 8) ≤ s.memmng.limit) :
    memMalloc fuel size s = some (s.memmng.pos (total bs) + 8, {
      mem    := DyMemHeader.setSize (DyMemHeader.setUsed s.mem s.memmng.usedEnd 1) s.memmng.usedEnd
        (BitVec.ofNat 32 (size.toNat + 8))
      memmng := { s.memmng with
        usedEnd := s.memmng.usedEnd + BitVec.ofNat 32 (size.toNat + 8) }
    }) := by
  have he := h.not_end_lt_of_le hn hl
  rw [h.memMalloc_finish hf hi, finish, if_pos rfl, if_neg he, add_sizeof, ← h.usedEnd]
  rfl

-- Another request is refused. The refusal still moves `used_end`.
theorem memMalloc_refuse (h : Tiles s bs) (hn : size ≤ maxSize) (hf : bs.length < fuel)
    (hi : find (needed size) bs = none) (hl : ¬total bs + (size.toNat + 8) ≤ s.memmng.limit) :
    memMalloc fuel size s = some (0, {
      mem    := s.mem
      memmng := { s.memmng with
        usedEnd := s.memmng.usedEnd + BitVec.ofNat 32 (size.toNat + 8) }
    }) := by
  have hn := toNat_le_of_le_maxSize hn
  have he := h.end_lt_iff hn |>.mpr hl
  rw [h.memMalloc_finish hf hi, add_sizeof, finish, if_pos rfl, if_pos he]

theorem memMalloc_alloc {bs' : Arena α} {a : α} (h : Tiles s bs) (hn : size ≤ maxSize)
    (hf : bs.length < fuel) (ha : alloc s.memmng.limit (size.toNat + 8) a bs = some (i, bs')) :
    ∃ t, memMalloc fuel size s = some (s.memmng.pos i + 8, t) ∧ Tiles t bs' ∧
      t.memmng.heapStart = s.memmng.heapStart := by
  rw [alloc, ← needed_of_le_maxSize hn] at ha
  split at ha
  case h_1 j hi =>
    cases ha
    obtain ⟨b, hb, _⟩ := find_some hi
    exact ⟨_, h.memMalloc_reuse hf hi, h.setOwner hb rfl, rfl⟩
  case h_2 hi =>
    split at ha
    case isFalse => cases ha
    case isTrue hl =>
      rw [needed_of_le_maxSize hn] at ha hl
      cases ha
      have hs := toNat_le_of_le_maxSize hn
      have ht := h.append (a := a) ⟨by omega, by omega⟩ (h.bound_append hl)
      exact ⟨_, h.memMalloc_grow hn hf hi hl, ht, rfl⟩

theorem memMalloc_full {a : α} (h : Tiles s bs) (hn : size ≤ maxSize) (hf : bs.length < fuel)
    (ha : alloc s.memmng.limit (size.toNat + 8) a bs = none) :
    ∃ t, memMalloc fuel size s = some (0, t) := by
  rw [alloc, ← needed_of_le_maxSize hn] at ha
  split at ha
  case h_1 => cases ha
  case h_2 hi =>
    split at ha
    case isTrue     => cases ha
    case isFalse hl => exact ⟨_, h.memMalloc_refuse hn hf hi <| needed_of_le_maxSize hn ▸ hl⟩

theorem room_of_granted {p : Word} {t : State} (h : Tiles s bs) (hn : size ≤ maxSize) (hp : p ≠ 0)
    (he : memMalloc fuel size s = some (p, t)) (hi : find (needed size) bs = none) :
    total bs + (size.toNat + 8) ≤ s.memmng.limit := by
  by_contra hl
  have hr := memMalloc_unique he <| h.memMalloc_refuse hn (Nat.lt_succ_self _) hi hl
  exact hp (Prod.mk.inj hr).left

theorem memMalloc_granted {p : Word} {t : State} (h : Tiles s bs) (hn : size ≤ maxSize) (hp : p ≠ 0)
    (he : memMalloc fuel size s = some (p, t)) (a : α) :
    ∃ bs' : Arena α, Tiles t bs' ∧ t.memmng.heapStart = s.memmng.heapStart := by
  have hf := Nat.lt_succ_self bs.length
  cases ha : alloc s.memmng.limit (size.toNat + 8) a bs
  case none =>
    have ⟨_, hf⟩ := h.memMalloc_full hn hf ha
    exact absurd (Prod.mk.inj <| memMalloc_unique he hf).left hp
  case some =>
    have ⟨_, hf, ht, hs⟩ := h.memMalloc_alloc hn hf ha
    obtain ⟨-, rfl⟩ := Prod.mk.inj <| memMalloc_unique he hf
    exact ⟨_, ht, hs⟩

theorem memMalloc_frame {p : Word} {t : State} (h : Tiles s bs) (hn : size ≤ maxSize) (hp : p ≠ 0)
    (he : memMalloc fuel size s = some (p, t)) :
    (∀ x, x.toNat < s.memmng.heapStart.toNat → t.mem x = s.mem x) ∧
    s.memmng.heapStart.toNat + 8 ≤ p.toNat ∧ p.toNat + size.toNat ≤ endUsrStackAddr.toNat := by
  have hf := Nat.lt_succ_self bs.length
  have hs := toNat_le_of_le_maxSize hn
  have hbound := h.bound
  have hend : endUsrStackAddr.toNat = 0xA4000000 := rfl
  cases hi : find (needed size) bs
  case some i =>
    obtain ⟨rfl, rfl⟩ := Prod.mk.inj <| memMalloc_unique he <| h.memMalloc_reuse hf hi
    have ⟨b, hb, _, hfit⟩ := find_some hi
    have hle := hb.le
    have hpos := h.pos_toNat <| Nat.le_of_add_right_le hle
    rw [needed_of_le_maxSize hn] at hfit
    refine ⟨fun x hx => Header.setUsed_frame ?_, by bv_omega, by bv_omega⟩
    bv_omega
  case none =>
    have hl := h.room_of_granted hn hp he hi
    obtain ⟨rfl, rfl⟩ := Prod.mk.inj <| memMalloc_unique he <| h.memMalloc_grow hn hf hi hl
    have hl := h.limit_iff.mp hl
    have hu := h.usedEnd_toNat
    have hpos := h.pos_toNat (Nat.le_refl _)
    refine ⟨fun x hx => ?_, by bv_omega, by bv_omega⟩
    have hx : 8 ≤ x - s.memmng.usedEnd := by bv_omega
    exact Header.setSize_frame hx |>.trans <| Header.setUsed_frame hx

theorem memFree (h : Tiles s bs) (hb : At bs i b) :
    memFree (s.memmng.pos i + 8) s.mem =
      if b.owner.isSome then (0, DyMemHeader.setUsed s.mem (s.memmng.pos i) 0) else (-1, s.mem) := by
  have hp : s.memmng.pos i + 8 - DyMemHeader.sizeof = s.memmng.pos i := BitVec.add_sub_cancel _ _
  rw [Heap.memFree, hp, h.header hb |>.used]
  cases b.owner <;> rfl

end Tiles

end Heap
