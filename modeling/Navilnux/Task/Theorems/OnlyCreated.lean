import Navilnux.Task.Theorems.Create

namespace Task

open Image Heap

variable {L : Image} {m : Memory} {fs : List Word} {blk : Nat}

structure Unchanged (L : Image) (s t : State) : Prop where
  taskmng : ∀ i < Global.taskmng.words, t.mem.word (L.addr .taskmng i) = s.mem.word (L.addr .taskmng i)
  memmng  : t.memmng = s.memmng

def runScheduler (L : Image) (k : Nat) (s : State) : Memory :=
  (scheduler L)^[k] (schedInit L s.mem).2

-- The task `i` is one of the tasks that were created for `fs`, and no other task has its stack.
structure CreatedTask (L : Image) (fs : List Word) (m : Memory) (i : Fin maxTaskNum) : Prop where
  initialized : ∃ f, fs[(i : Nat)]? = some f ∧ Initialized L m i f
  ownStack    : ∀ j : Fin maxTaskNum, j < fs.length → j ≠ i →
    L.view m (.tcb (.task j) 14) ≠ L.view m (.tcb (.task i) 14)

-- From `navilnux_init`, calls of `task_create` for `fs` leave everything as it was if they fail, and
-- the scheduler selects only tasks that were created.
structure OnlyCreated (L : Image) (m : Memory) (fs : List Word) : Prop where
  failed   : ∀ gs f hs, fs = gs ++ f :: hs →
    (taskCreate L f (navilnuxUser L gs (navilnuxInit L m))).1.slt 0 →
    Unchanged L (navilnuxUser L gs (navilnuxInit L m))
      (taskCreate L f (navilnuxUser L gs (navilnuxInit L m))).2
  selected : (schedInit L (navilnuxUser L fs (navilnuxInit L m)).mem).1 = 0 → ∀ k,
    ∃ i : Fin maxTaskNum,
      L.view (runScheduler L (k + 1) (navilnuxUser L fs (navilnuxInit L m))) .index =
        BitVec.ofNat 32 i ∧
      CreatedTask L fs (runScheduler L (k + 1) (navilnuxUser L fs (navilnuxInit L m))) i

theorem view_runScheduler {s : State} {k : Nat} {t : Tcb} {j : Fin NavilFreeTask.words} :
    L.view (runScheduler L k s) (.tcb t j) = L.view s.mem (.tcb t j) := by
  induction k
  case zero =>
    rw [runScheduler, Function.iterate_zero_apply]
    by_cases h : (L.view s.mem .maxTaskId).slt 0
    case pos => rw [schedInit, maxTaskId_eq, word_at, if_pos h]
    case neg => exact congrFun (view_schedInit h) _
  case succ ih =>
    rw [runScheduler, Function.iterate_succ_apply', view_scheduler]
    exact ih

namespace Created

variable {s : State}

theorem not_unchanged (h : Created L maxMemBlk fs s) (hl : fs.length = maxTaskNum) (f : Word) :
    (taskCreate L f s).1.slt 0 ∧ ¬Unchanged L s (taskCreate L f s).2 := by
  rw [h.taskCreate_exhausted hl f]
  refine ⟨(by decide : (-2 : Word).slt 0), fun hu => ?_⟩
  have hm := hu.taskmng (NavilFreeTask.words * maxTaskNum) (by decide)
  have ht : (s.mem.setWord L.maxTaskId (BitVec.ofNat 32 maxTaskNum)).word L.maxTaskId =
      s.mem.word L.maxTaskId := hm
  have hv : s.mem.word L.maxTaskId + 1 = BitVec.ofNat 32 maxTaskNum := hl ▸ h.maxTaskId
  rw [Memory.word_setWord] at ht
  rw [← ht] at hv
  exact absurd hv (by decide)

theorem not_slt (h : Created L blk fs s) (hl : fs.length < maxTaskNum) (f : Word) :
    ¬(taskCreate L f s).1.slt 0 := by
  have ⟨_, hr, _⟩ := h.taskCreate_eq hl f
  have hl : fs.length < 40 := hl
  rw [hr, BitVec.slt_eq_decide, decide_eq_true_eq, toInt_ofNat (by omega)]
  simp

theorem selects_maxTaskNum (h : Created L maxMemBlk fs s) (hl : fs.length = maxTaskNum) (f : Word) :
    L.view (runScheduler L (maxTaskNum + 1) (taskCreate L f s).2) .index =
    BitVec.ofNat 32 maxTaskNum := by
  rw [h.taskCreate_exhausted hl f]
  have hv : L.view (s.mem.setWord L.maxTaskId (BitVec.ofNat 32 maxTaskNum)) .maxTaskId =
      BitVec.ofNat 32 maxTaskNum := Memory.word_setWord
  have hs : Scheduled L (maxTaskNum + 1) 0
      (L.view (schedInit L (s.mem.setWord L.maxTaskId (BitVec.ofNat 32 maxTaskNum))).2) := by
    rw [view_schedInit (by rw [hv]; decide)]
    exact .start <| by rw [hv]; rfl
  exact hs.iterate (k := maxTaskNum + 1) (by decide) (by decide) |>.index

theorem selected (h : Created L blk fs s) (hf : fs ≠ []) (k : Nat) :
    ∃ i : Fin maxTaskNum, L.view (runScheduler L (k + 1) s) .index = BitVec.ofNat 32 i ∧
      CreatedTask L fs (runScheduler L (k + 1) s) i := by
  have hp := List.length_pos_iff.mpr hf
  have hl : fs.length ≤ 40 := h.length_le
  have hk := Nat.mod_lt k hp
  have hs := (h.scheduled hf).iterate (k := k + 1) hp (by omega)
  refine ⟨⟨k % fs.length, Nat.lt_of_lt_of_le hk h.length_le⟩, hs.index, ?_, ?_⟩
  case refine_1 =>
    have hi := h.initialized (i := ⟨k % fs.length, Nat.lt_of_lt_of_le hk h.length_le⟩)
      (List.getElem?_eq_getElem hk)
    exact ⟨_, List.getElem?_eq_getElem hk, {
      spsr := view_runScheduler.trans hi.spsr
      sp   := view_runScheduler.trans hi.sp
      pc   := view_runScheduler.trans hi.pc
    }⟩
  case refine_2 =>
    intro j hj hne he
    have hi := h.initialized (i := ⟨k % fs.length, Nat.lt_of_lt_of_le hk h.length_le⟩)
      (List.getElem?_eq_getElem hk)
    have hj := h.initialized (List.getElem?_eq_getElem hj)
    rw [view_runScheduler, view_runScheduler, hi.sp, hj.sp] at he
    have hk : k % fs.length < 1024 := by omega
    exact hne <| Fin.ext <| stackTop_inj (Nat.lt_trans j.isLt (by decide)) hk he

end Created

-- The scheduler only runs created tasks exactly if `task_create` is never called for more than
-- `MAXTASKNUM` tasks.
theorem only_created_iff : OnlyCreated L m fs ↔ fs.length ≤ maxTaskNum := by
  constructor
  case mp =>
    intro h
    by_contra hl
    have hl : maxTaskNum < fs.length := Nat.lt_of_not_le hl
    have hgs : (fs.take maxTaskNum).length = maxTaskNum :=
      List.length_take.trans <| Nat.min_eq_left <| Nat.le_of_lt hl
    have hfs : fs = fs.take maxTaskNum ++ fs[maxTaskNum] :: fs.drop (maxTaskNum + 1) := by
      rw [← List.drop_eq_getElem_cons, List.take_append_drop]
    have hc := created_navilnuxUser (L := L) (m := m) (Nat.le_of_eq hgs)
    have ⟨hf, hu⟩ := hc.not_unchanged hgs fs[maxTaskNum]
    exact hu <| h.failed _ _ _ hfs hf
  case mpr =>
    intro hl
    constructor
    case failed =>
      intro gs f hs he hf
      have hlt : gs.length < maxTaskNum := by
        rw [he, List.length_append, List.length_cons] at hl
        omega
      have hc := created_navilnuxUser (L := L) (m := m) (Nat.le_of_lt hlt)
      exact absurd hf <| hc.not_slt hlt f
    case selected =>
      intro hi k
      have hc := created_navilnuxUser (L := L) (m := m) hl
      refine hc.selected (fun hf => ?_) k
      rw [schedInit_fst, if_pos (hc.maxTaskId_slt_iff.mpr hf)] at hi
      exact absurd hi (by decide)

theorem navilnuxUser_append {fs gs : List Word} {s : State} :
    navilnuxUser L (fs ++ gs) s = navilnuxUser L gs (navilnuxUser L fs s) := by
  induction fs generalizing s
  case nil     => rfl
  case cons ih => exact ih

-- After one `task_create` too many, the scheduler selects a TCB behind the end of the pool.
theorem scheduler_leaves_pool :
    ¬OnlyCreated navilnuxElf (fun _ => 0) (List.replicate 41 userTask1) ∧
    navilnuxElf.view (runScheduler navilnuxElf 41 <| navilnuxUser navilnuxElf
      (List.replicate 41 userTask1) <| navilnuxInit navilnuxElf fun _ => 0) .index = 40 := by
  have hl : (List.replicate 40 userTask1).length = maxTaskNum := List.length_replicate
  have hc := created_navilnuxUser (L := navilnuxElf) (m := fun _ => 0) (Nat.le_of_eq hl)
  have he : List.replicate 41 userTask1 = List.replicate 40 userTask1 ++ [userTask1] :=
    List.replicate_succ'
  have ⟨hf, hu⟩ := hc.not_unchanged hl userTask1
  refine ⟨fun h => hu <| h.failed _ _ [] he hf, ?_⟩
  rw [he, navilnuxUser_append]
  exact hc.selects_maxTaskNum hl userTask1

end Task
