import Navilnux.Base.FirstFit
import Navilnux.Heap.Basic

-- The heap as an arena: its headers tile the memory from `heap_start` to `used_end`.
namespace Heap

open Arena

variable {α : Type}

structure Header (m : Memory) (a : Word) (b : Block α) : Prop where
  used : DyMemHeader.used m a = if b.owner.isSome then 1 else 0
  size : DyMemHeader.size m a = BitVec.ofNat 32 b.size

def NavilMemMng.pos (memmng : NavilMemMng) (i : Nat) : Word :=
  memmng.heapStart + BitVec.ofNat 32 i

structure Tiles (s : State) (bs : Arena α) : Prop where
  start   : s.memmng.heapStart ≠ 0
  size    : ∀ b ∈ bs, 8 ≤ b.size ∧ b.size < 2 ^ 31
  bound   : s.memmng.heapStart.toNat + total bs ≤ endUsrStackAddr.toNat
  usedEnd : s.memmng.usedEnd = s.memmng.pos (total bs)
  header  : ∀ {i b}, At bs i b → Header s.mem (s.memmng.pos i) b

structure Row (m : Memory) (a : Word) (bs : Arena α) : Prop where
  header : ∀ {i b}, At bs i b → Header m (a + BitVec.ofNat 32 i) b
  size   : ∀ b ∈ bs, 8 ≤ b.size ∧ b.size < 2 ^ 31
  bound  : a.toNat + total bs < 2 ^ 32

def NavilMemMng.limit (memmng : NavilMemMng) : Nat :=
  endUsrStackAddr.toNat - memmng.heapStart.toNat

-- The largest size for which `size + sizeof(Dy_mem_header)` is the size of an empty heap.
def maxSize : Word :=
  endUsrStackAddr - startDyMemAddr - DyMemHeader.sizeof

namespace Header

variable {m m' : Memory} {a : Word} {b : Block α}

theorem congr (h : Header m a b) (hm : ∀ x, x - a < 8 → m' x = m x) : Header m' a b := by
  constructor
  case used =>
    rw [← h.used]
    exact Memory.word_congr fun x hx => hm x (by bv_omega)
  case size =>
    rw [← h.size]
    exact Memory.word_congr fun x hx => hm x (by bv_omega)

theorem setUsed_frame {v x : Word} (hx : 8 ≤ x - a) : DyMemHeader.setUsed m a v x = m x := by
  have hx : ¬(x - a < 4) := by bv_omega
  simp only [DyMemHeader.setUsed, Memory.setWord, hx, if_false]

theorem setSize_frame {v x : Word} (hx : 8 ≤ x - a) : DyMemHeader.setSize m a v x = m x := by
  have hx : ¬(x - (a + 4) < 4) := by bv_omega
  simp only [DyMemHeader.setSize, Memory.setWord, hx, if_false]

theorem apart : Memory.Apart a (a + 4) := by
  constructor <;> bv_omega

theorem size_setUsed {v : Word} : DyMemHeader.size (DyMemHeader.setUsed m a v) a =
    DyMemHeader.size m a :=
  Memory.word_setWord_of_apart apart

theorem used_setSize {v : Word} : DyMemHeader.used (DyMemHeader.setSize m a v) a =
    DyMemHeader.used m a :=
  Memory.word_setWord_of_apart apart.symm

theorem setUsed {o : Option α} {v : Word} (h : Header m a b) (hv : v = if o.isSome then 1 else 0) :
    Header (DyMemHeader.setUsed m a v) a { b with owner := o } where
  used := hv ▸ Memory.word_setWord
  size := size_setUsed.trans h.size

theorem write {o : α} {n : Nat} :
    Header (DyMemHeader.setSize (DyMemHeader.setUsed m a 1) a (BitVec.ofNat 32 n)) a
      (⟨n, some o⟩ : Block α) where
  used := used_setSize.trans Memory.word_setWord
  size := Memory.word_setWord

end Header

namespace Row

variable {m : Memory} {a : Word} {b : Block α} {bs : Arena α}

theorem head (h : Row m a (b :: bs)) : Header m a b := by
  simpa using h.header .head

theorem head_size (h : Row m a (b :: bs)) : 8 ≤ b.size ∧ b.size < 2 ^ 31 :=
  List.forall_mem_cons.mp h.size |>.left

theorem tail (h : Row m a (b :: bs)) : Row m (a + BitVec.ofNat 32 b.size) bs where
  header hi := by
    rw [BitVec.add_assoc, ← BitVec.ofNat_add]
    exact h.header (.tail hi)
  size      := List.forall_mem_cons.mp h.size |>.right
  bound     := by
    have := h.bound
    simp only [total_cons] at *
    bv_omega

theorem tail_end : a + BitVec.ofNat 32 b.size + BitVec.ofNat 32 (total bs) =
    a + BitVec.ofNat 32 (total (b :: bs)) := by
  rw [BitVec.add_assoc, ← BitVec.ofNat_add, total_cons]

theorem nil_end : a = a + BitVec.ofNat 32 (total ([] : Arena α)) :=
  (BitVec.add_zero a).symm

theorem ne_end (h : Row m a (b :: bs)) : a ≠ a + BitVec.ofNat 32 (total (b :: bs)) := by
  have := h.bound
  have := h.head_size
  simp only [total_cons] at *
  bv_omega

end Row

namespace Tiles

variable {s : State} {bs bs' : Arena α} {b c : Block α} {i j : Nat} {m : Memory}

theorem init {memmng : NavilMemMng} (hs : memmng.heapStart = startDyMemAddr)
    (hu : memmng.usedEnd = startDyMemAddr) : Tiles ⟨m, memmng⟩ ([] : Arena α) where
  start     := by rw [hs]; decide
  size _ hb := nomatch hb
  bound     := by rw [hs]; exact (by decide : startDyMemAddr.toNat + 0 ≤ endUsrStackAddr.toNat)
  usedEnd   := by rw [hu, NavilMemMng.pos, hs]; rfl
  header hb := nomatch hb

theorem row (h : Tiles s bs) : Row s.mem s.memmng.heapStart bs where
  header := h.header
  size   := h.size
  bound  := Nat.lt_of_le_of_lt h.bound (by decide)

theorem positive (h : Tiles s bs) : Positive bs :=
  fun b hb => Nat.lt_of_lt_of_le (by decide) (h.size b hb).left

theorem pos_toNat (h : Tiles s bs) (hi : i ≤ total bs) :
    (s.memmng.pos i).toNat = s.memmng.heapStart.toNat + i := by
  have := h.bound
  simp only [NavilMemMng.pos, endUsrStackAddr] at *
  bv_omega

theorem pos_ne_zero (h : Tiles s bs) (hi : i ≤ total bs) : s.memmng.pos i ≠ 0 := by
  intro hp
  have := h.pos_toNat hi
  have := h.start
  bv_omega

theorem pos_add : s.memmng.pos i + BitVec.ofNat 32 j = s.memmng.pos (i + j) := by
  simp only [NavilMemMng.pos, BitVec.ofNat_add, BitVec.add_assoc]

theorem pos_inj (h : Tiles s bs) (hi : i ≤ total bs) (hj : j ≤ total bs)
    (he : s.memmng.pos i = s.memmng.pos j) : i = j := by
  have he := congrArg BitVec.toNat he
  rw [h.pos_toNat hi, h.pos_toNat hj] at he
  omega

theorem frame (h : Tiles s bs) (pool : List NavilFreeMem)
    (hm : ∀ x, s.memmng.heapStart ≤ x → x < s.memmng.usedEnd → m x = s.mem x) :
    Tiles ⟨m, { s.memmng with freeMemPool := pool }⟩ bs := by
  refine { start := h.start, size := h.size, bound := h.bound, usedEnd := h.usedEnd, header := ?_ }
  intro i b hb
  refine h.header hb |>.congr fun x hx => ?_
  have := hb.le
  have := h.bound
  have := h.size b hb.mem
  have := h.usedEnd
  have hx : x - (s.memmng.heapStart + BitVec.ofNat 32 i) < 8 := hx
  simp only [NavilMemMng.pos, endUsrStackAddr] at *
  exact hm x (by bv_omega) (by bv_omega)

theorem congr (h : Tiles s bs) (pool : List NavilFreeMem)
    (hm : ∀ x, s.memmng.heapStart.toNat ≤ x.toNat → m x = s.mem x) :
    Tiles ⟨m, { s.memmng with freeMemPool := pool }⟩ bs :=
  h.frame pool fun x hx _ => hm x hx

theorem write_end (h : Tiles s bs) (hm : ∀ x, 8 ≤ x - s.memmng.usedEnd → m x = s.mem x) :
    Tiles ⟨m, s.memmng⟩ bs := by
  refine h.frame s.memmng.freeMemPool fun x _ hx => hm x ?_
  have := h.bound
  have := h.usedEnd
  simp only [NavilMemMng.pos, endUsrStackAddr] at *
  bv_omega

theorem update (h : Tiles s bs)
    (hat : ∀ {j c}, At bs' j c ↔ j = i ∧ c = b ∨ j ≠ i ∧ At bs j c)
    (ht : s.memmng.heapStart.toNat + total bs' ≤ endUsrStackAddr.toNat)
    (hs : 8 ≤ b.size ∧ b.size < 2 ^ 31)
    (hb : Header m (s.memmng.pos i) b) (hm : ∀ x, 8 ≤ x - s.memmng.pos i → m x = s.mem x) :
    Tiles ⟨m, { s.memmng with usedEnd := s.memmng.pos (total bs') }⟩ bs' := by
  have hsize : ∀ c ∈ bs', 8 ≤ c.size ∧ c.size < 2 ^ 31 := by
    intro c hc
    have ⟨j, hj⟩ := exists_at_of_mem hc
    rcases hat.mp hj with ⟨-, rfl⟩ | ⟨-, hj⟩
    · exact hs
    · exact h.size c hj.mem
  refine { start := h.start, size := hsize, bound := ht, usedEnd := rfl, header := ?_ }
  intro j c hc
  rcases hat.mp hc with ⟨rfl, rfl⟩ | ⟨hne, hj⟩
  · exact hb
  · refine h.header hj |>.congr fun x hx => hm x ?_
    have hi : At bs' i b := hat.mpr <| .inl ⟨rfl, rfl⟩
    have hd := hi.disjoint hc
    have := hi.le
    have := hc.le
    have := hsize c hc.mem
    have hx : x - (s.memmng.heapStart + BitVec.ofNat 32 j) < 8 := hx
    simp only [NavilMemMng.pos, endUsrStackAddr] at *
    bv_omega

theorem setOwner {o : Option α} {v : Word} (h : Tiles s bs) (hb : At bs i b)
    (hv : v = if o.isSome then 1 else 0) :
    Tiles ⟨DyMemHeader.setUsed s.mem (s.memmng.pos i) v, s.memmng⟩ (Arena.setOwner i o bs) := by
  have ht : total (Arena.setOwner i o bs) = total bs := total_setOwner
  have h' := h.update (at_setOwner_iff (o := o) h.positive hb) (ht.symm ▸ h.bound)
    (h.size b hb.mem) (h.header hb |>.setUsed hv) (fun _ => Header.setUsed_frame)
  rwa [ht, ← h.usedEnd] at h'

theorem append {a : α} {n : Nat} (h : Tiles s bs) (hn : 8 ≤ n ∧ n < 2 ^ 31)
    (ht : s.memmng.heapStart.toNat + (total bs + n) ≤ endUsrStackAddr.toNat) :
    Tiles {
      mem    := DyMemHeader.setSize (DyMemHeader.setUsed s.mem s.memmng.usedEnd 1) s.memmng.usedEnd
        (BitVec.ofNat 32 n)
      memmng := { s.memmng with usedEnd := s.memmng.usedEnd + BitVec.ofNat 32 n }
    } (bs ++ [⟨n, some a⟩]) := by
  have hl : total (bs ++ [(⟨n, some a⟩ : Block α)]) = total bs + n := by simp
  have h' := h.update (at_append_iff_of_positive (b := ⟨n, some a⟩) h.positive) (hl.symm ▸ ht) hn
    Header.write fun _ hx => Header.setSize_frame hx |>.trans <| Header.setUsed_frame hx
  rwa [hl, ← pos_add, ← h.usedEnd] at h'

end Tiles

end Heap
