import Navilnux.Heap.Theorems.Pool
import Navilnux.Task.Theorems.Scheduler

namespace Task

open Image Heap

variable {L : Image} {m : Memory} {s : State} {f : Word} {fs gs : List Word} {n blk : Nat}

structure Initialized (L : Image) (m : Memory) (i : Fin maxTaskNum) (f : Word) : Prop where
  spsr : L.view m (.tcb (.task i) 0) = startUsrCpsr
  sp   : L.view m (.tcb (.task i) 14) = stackTop i
  pc   : L.view m (.tcb (.task i) 16) = f

-- The state after tasks for all functions in `fs` were created, with a pool of `blk` stacks.
structure Created (L : Image) (blk : Nat) (fs : List Word) (s : State) : Prop where
  blocks      : maxTaskNum ≤ blk
  length_le   : fs.length ≤ maxTaskNum
  maxTaskId   : L.view s.mem .maxTaskId + 1 = BitVec.ofNat 32 fs.length
  freeMemPool : s.memmng.freeMemPool = poolAfter blk fs.length
  initialized : ∀ {i : Fin maxTaskNum} {f}, fs[(i : Nat)]? = some f → Initialized L s.mem i f
  sleepEnd    : ∀ i, L.view s.mem (.tcb (.task i) 17) = 0
  tick        : L.view s.mem .tick = 0

theorem view_initTask (i : Fin maxTaskNum) : L.view (initTask L (BitVec.ofNat 32 i) m) =
    Function.update (Function.update (Function.update (Function.update (L.view m)
      (.tcb (.task i) 0) 0) (.tcb (.task i) 15) 0) (.tcb (.task i) 16) 0) (.tcb (.task i) 17) 0 := by
  simp (disch := decide) only [initTask, view_setField]
  rfl

theorem view_initTasks (hn : n ≤ maxTaskNum) (i : Fin maxTaskNum) (hi : i < n) :
    L.view (initTasks L n m) (.tcb (.task i) 17) = 0 := by
  induction n
  case zero => nomatch hi
  case succ n ih =>
    rw [initTasks, view_initTask ⟨n, hn⟩]
    by_cases h : i = ⟨n, hn⟩
    case pos => rw [h, Function.update_self]
    case neg =>
      have hne : (i : Nat) ≠ n := fun he => h <| Fin.ext he
      have ih := ih (Nat.le_of_succ_le hn) (by omega)
      simp [h, ih]

theorem view_taskInit : L.view (taskInit L m) =
    Function.update (L.view (initTasks L maxTaskNum m)) .maxTaskId (-1) := by
  rw [taskInit, maxTaskId_eq, view_setWord]

theorem created_navilnuxInit : Created L maxMemBlk [] (navilnuxInit L m) where
  blocks         := Nat.le_refl _
  length_le      := Nat.zero_le _
  maxTaskId      := by simp [navilnuxInit, navilnuxTimeTick_eq, view_taskInit]
  freeMemPool    := initPool_eq
  initialized hf := nomatch hf
  sleepEnd i     := by
    simp [navilnuxInit, navilnuxTimeTick_eq, view_taskInit, view_initTasks (Nat.le_refl _) i i.isLt]
  tick           := by simp [navilnuxInit, navilnuxTimeTick_eq]

theorem setField_frame {a x : Word} {j : Nat} (hj : j < NavilFreeTask.words) (hx : ¬(x - a < 72)) :
    m.setWord (field a j) f x = m x := by
  have hj : j < 18 := hj
  refine Memory.setWord_apply_of_not_lt ?_
  rw [field]
  bv_omega

theorem taskCreate_frame {x : Word}
    (ht : ¬(x - L.freeTaskPool (s.mem.word L.maxTaskId + 1) < 72)) (hm : ¬(x - L.maxTaskId < 4)) :
    (taskCreate L f s).2.mem x = s.mem x := by
  simp only [taskCreate]
  split
  case isTrue => exact Memory.setWord_apply_of_not_lt hm
  case isFalse =>
    split
    case isTrue => exact Memory.setWord_apply_of_not_lt hm
    case isFalse =>
      simp (disch := decide) only [setField_frame _ ht, Memory.setWord_apply_of_not_lt hm]

theorem taskCreate_memmng : (taskCreate L f s).2.memmng =
    { s.memmng with freeMemPool := (taskCreate L f s).2.memmng.freeMemPool } := by
  simp only [taskCreate]
  split
  case isTrue => rfl
  case isFalse => split <;> rfl

namespace Created

theorem congr {t : State} (h : Created L blk fs s) (hv : ∀ v, L.view t.mem v = L.view s.mem v)
    (hp : t.memmng.freeMemPool = s.memmng.freeMemPool) : Created L blk fs t where
  blocks      := h.blocks
  length_le   := h.length_le
  maxTaskId   := by rw [hv, h.maxTaskId]
  freeMemPool := hp.trans h.freeMemPool
  sleepEnd i  := (hv _).trans <| h.sleepEnd i
  tick        := (hv _).trans h.tick
  initialized hf :=
    have ⟨h₁, h₂, h₃⟩ := h.initialized hf
    ⟨(hv _).trans h₁, (hv _).trans h₂, (hv _).trans h₃⟩

theorem slt_length (h : Created L blk fs s) :
    ¬(BitVec.ofNat 32 maxTaskNum).slt (BitVec.ofNat 32 fs.length) := by
  have hl : fs.length ≤ 40 := h.length_le
  rw [BitVec.slt_eq_decide, decide_eq_true_eq, toInt_ofNat (by decide), toInt_ofNat (by omega)]
  exact Int.not_lt.mpr <| Int.ofNat_le.mpr h.length_le

theorem taskCreate_eq (h : Created L blk fs s) (hl : fs.length < maxTaskNum) (f : Word) :
    ∃ t, taskCreate L f s = (BitVec.ofNat 32 fs.length, t) ∧
      t.memmng.freeMemPool = poolAfter blk (fs.length + 1) ∧
      L.view t.mem = Function.update (Function.update (Function.update (Function.update
        (L.view s.mem)
        .maxTaskId (BitVec.ofNat 32 fs.length))
        (.tcb (.task ⟨fs.length, hl⟩) 0) startUsrCpsr)
        (.tcb (.task ⟨fs.length, hl⟩) 14) (stackTop fs.length))
        (.tcb (.task ⟨fs.length, hl⟩) 16) f := by
  have hm : s.mem.word L.maxTaskId + 1 = BitVec.ofNat 32 fs.length := h.maxTaskId
  have hp := memAlloc_poolAfter h.freeMemPool <| Nat.lt_of_lt_of_le hl h.blocks
  rw [taskCreate, hm, if_neg h.slt_length, hp]
  simp only [if_neg (stackTop_ne_zero <| Nat.lt_trans hl (by decide))]
  refine ⟨_, rfl, rfl, ?_⟩
  have hf {j x m} (hj : j < NavilFreeTask.words) := view_setField (L := L) (m := m) (x := x) ⟨_, hl⟩ hj
  simp (disch := decide) only [hf, maxTaskId_eq, view_setWord]
  rfl

theorem concat (h : Created L blk fs s) (hl : fs.length < maxTaskNum) (f : Word) :
    Created L blk (fs ++ [f]) (taskCreate L f s).2 := by
  have ⟨t, he, hp, hv⟩ := h.taskCreate_eq hl f
  rw [he]
  constructor
  case blocks      => exact h.blocks
  case length_le   => rw [List.length_append]; exact hl
  case maxTaskId   => simp [hv, BitVec.ofNat_add]
  case freeMemPool => rw [List.length_append]; exact hp
  case sleepEnd    => simp [hv, h.sleepEnd]
  case tick        => simp [hv, h.tick]
  case initialized =>
    intro i g hg
    by_cases hi : (i : Nat) = fs.length
    case pos =>
      have hi : i = ⟨fs.length, hl⟩ := Fin.ext hi
      have hg : f = g := by simpa [hi] using hg
      rw [hi, ← hg]
      constructor <;> simp [hv]
    case neg =>
      have hlt : (i : Nat) < fs.length := by
        have := (List.getElem?_eq_some_iff.mp hg).1
        rw [List.length_append, List.length_singleton] at this
        omega
      have hne : i ≠ ⟨fs.length, hl⟩ := fun he => hi <| congrArg Fin.val he
      have ⟨h₁, h₂, h₃⟩ := h.initialized (List.getElem?_append_left hlt ▸ hg)
      constructor <;> simpa [hv, hne]

theorem taskCreate_exhausted (h : Created L maxMemBlk fs s) (hl : fs.length = maxTaskNum) (f : Word) :
    taskCreate L f s = (-2, ⟨s.mem.setWord L.maxTaskId (BitVec.ofNat 32 maxTaskNum), s.memmng⟩) := by
  have hm : s.mem.word L.maxTaskId + 1 = BitVec.ofNat 32 fs.length := h.maxTaskId
  have hp : s.memmng.freeMemPool = poolAfter maxMemBlk maxMemBlk := by
    rw [h.freeMemPool, hl]
    rfl
  rw [taskCreate, hm, if_neg h.slt_length, memAlloc_exhausted hp, hl]
  rfl

theorem append (h : Created L blk fs s) (hl : (fs ++ gs).length ≤ maxTaskNum) :
    Created L blk (fs ++ gs) (navilnuxUser L gs s) := by
  induction gs generalizing fs s
  case nil => simpa [navilnuxUser] using h
  case cons f gs ih =>
    have hlt : fs.length < maxTaskNum := by
      rw [List.length_append, List.length_cons] at hl
      omega
    rw [List.append_cons] at *
    exact ih (h.concat hlt f) hl

theorem maxTaskId_slt_iff (h : Created L blk fs s) : (L.view s.mem .maxTaskId).slt 0 ↔ fs = [] := by
  have hl : fs.length ≤ 40 := h.length_le
  have hm : L.view s.mem .maxTaskId = BitVec.ofNat 32 fs.length - 1 := by
    rw [← h.maxTaskId, BitVec.add_sub_cancel]
  cases fs
  case nil => simp [hm]
  case cons f fs =>
    have hs : BitVec.ofNat 32 (f :: fs).length - 1 = BitVec.ofNat 32 fs.length := by
      rw [List.length_cons, BitVec.ofNat_add]
      exact BitVec.add_sub_cancel _ _
    rw [List.length_cons] at hl
    rw [hm, hs, BitVec.slt_eq_decide, decide_eq_true_eq, toInt_ofNat (by omega)]
    simp

theorem scheduled (h : Created L blk fs s) (hf : fs ≠ []) :
    Scheduled L fs.length 0 (L.view (schedInit L s.mem).2) := by
  rw [view_schedInit (h.maxTaskId_slt_iff.not.mpr hf)]
  exact .start h.maxTaskId

end Created

theorem created_navilnuxUser (h : fs.length ≤ maxTaskNum) :
    Created L maxMemBlk fs (navilnuxUser L fs (navilnuxInit L m)) :=
  created_navilnuxInit.append h

end Task
