import Navilnux.Heap.Basic

namespace Heap

def stackTop (n : Nat) : Word :=
  startUsrStackAddr + BitVec.ofNat 32 n * usrStackSize + usrStackSize - 4

def poolAfter (blk n : Nat) : List NavilFreeMem :=
  (initPool startUsrStackAddr n).map ({ · with isUsed := 1 }) ++
  initPool (startUsrStackAddr + BitVec.ofNat 32 n * usrStackSize) (blk - n)

variable {pt : Word} {blk n k : Nat} {bs us : List NavilFreeMem} {memmng : NavilMemMng}

theorem initPool_succ : initPool pt (n + 1) =
    initPool pt n ++ initPool (pt + BitVec.ofNat 32 n * usrStackSize) 1 := by
  induction n generalizing pt
  case zero => simp [initPool]
  case succ n ih =>
    have h : pt + usrStackSize + BitVec.ofNat 32 n * usrStackSize =
        pt + BitVec.ofNat 32 (n + 1) * usrStackSize := by
      rw [BitVec.ofNat_add, BitVec.add_mul, BitVec.add_assoc, BitVec.add_comm usrStackSize]
      rfl
    rw [← h]
    exact congrArg (_ :: ·) ih

theorem allocFrom_append (h : ∀ b ∈ us, b.isUsed ≠ 0) :
    allocFrom (us ++ bs) = ((allocFrom bs).1, us ++ (allocFrom bs).2) := by
  induction us
  case nil => rfl
  case cons ih =>
    have ⟨hb, h⟩ := List.forall_mem_cons.mp h
    rw [List.cons_append, allocFrom, if_neg hb, ih h]
    rfl

theorem isUsed_of_mem {b : NavilFreeMem}
    (h : b ∈ bs.map ({ · with isUsed := 1 : NavilFreeMem })) : b.isUsed ≠ 0 := by
  have ⟨_, _, hb⟩ := List.mem_map.mp h
  exact hb ▸ (by decide : (1 : Word) ≠ 0)

theorem memAlloc_poolAfter (h : memmng.freeMemPool = poolAfter blk n) (hn : n < blk) :
    memAlloc memmng = (stackTop n, { memmng with freeMemPool := poolAfter blk (n + 1) }) := by
  have ⟨k, hk⟩ := Nat.exists_eq_add_of_lt hn
  have hs : blk - n = k + 1 := by omega
  have hs' : blk - (n + 1) = k := by omega
  rw [memAlloc, h, poolAfter, hs, allocFrom_append fun b => isUsed_of_mem, poolAfter, hs',
    @initPool_succ startUsrStackAddr, List.map_append]
  have h : startUsrStackAddr + BitVec.ofNat 32 n * usrStackSize + usrStackSize =
      startUsrStackAddr + BitVec.ofNat 32 (n + 1) * usrStackSize := by
    rw [BitVec.ofNat_add, BitVec.add_mul, BitVec.add_assoc]
    rfl
  simp [initPool, allocFrom, stackTop, h]

theorem memAlloc_exhausted (h : memmng.freeMemPool = poolAfter blk blk) :
    memAlloc memmng = (0, memmng) := by
  have hp : poolAfter blk blk = poolAfter blk blk ++ [] := (List.append_nil _).symm
  have hu : ∀ b ∈ poolAfter blk blk, b.isUsed ≠ 0 := by
    rw [poolAfter, Nat.sub_self, initPool, List.append_nil]
    exact fun b => isUsed_of_mem
  rw [memAlloc, h, hp, allocFrom_append hu, ← h, allocFrom, List.append_nil]

theorem initPool_eq : initPool startUsrStackAddr blk = poolAfter blk 0 := by
  simp [poolAfter, initPool]

theorem stackTop_toNat (hn : n < 1024) : (stackTop n).toNat = 0xA04FFFFC + n * 0x00100000 := by
  simp only [stackTop, startUsrStackAddr, usrStackSize] at *
  bv_omega

theorem stackTop_ne_zero (hn : n < 1024) : stackTop n ≠ 0 := by
  have := stackTop_toNat hn
  bv_omega

theorem stackTop_inj (hn : n < 1024) (hk : k < 1024) (h : stackTop n = stackTop k) :
    n = k := by
  have h := congrArg BitVec.toNat h
  rw [stackTop_toNat hn, stackTop_toNat hk] at h
  omega

end Heap
