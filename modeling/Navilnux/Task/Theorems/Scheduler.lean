import Mathlib.Logic.Function.Iterate
import Navilnux.Task.View

namespace Task

open Image

variable {L : Image} {m : Memory} {i k n : Nat}

def schedule (L : Image) (x : Var → Word) : Var → Word
  | .index           => (x .index + 1).srem (x .maxTaskId + 1)
  | .current | .next => L.freeTaskPool ((x .index + 1).srem (x .maxTaskId + 1))
  | v                => x v

theorem view_scheduler : L.view (scheduler L m) = schedule L (L.view m) := by
  simp only [scheduler, navilnuxCurrentIndex_eq, navilnuxNext_eq, navilnuxCurrent_eq, maxTaskId_eq,
    word_at, view_setWord, Function.update_self, Function.update_idem]
  funext v
  cases v <;> simp [schedule]

def schedStart (L : Image) (x : Var → Word) : Var → Word
  | .index   => -1
  | .current => L.tcb .dummy
  | .next    => L.freeTaskPool 0
  | v        => x v

theorem schedInit_fst : (schedInit L m).1 = if (L.view m .maxTaskId).slt 0 then -1 else 0 := by
  rw [schedInit, maxTaskId_eq, word_at]
  split <;> rfl

theorem view_schedInit (h : ¬(L.view m .maxTaskId).slt 0) :
    L.view (schedInit L m).2 = schedStart L (L.view m) := by
  rw [schedInit, maxTaskId_eq, word_at, if_neg h]
  simp only [navilnuxCurrentIndex_eq, navilnuxNext_eq, navilnuxCurrent_eq, dummyTCB_eq, view_setWord]
  funext v
  cases v <;> simp [schedStart]

theorem view_irqHandler {icip : Word} : L.view (irqHandler L icip m) =
    if icip &&& (1 <<< 27) ≠ 0 then
      schedule L (Function.update (L.view m) .tick (L.view m .tick + 1))
    else L.view m := by
  rw [irqHandler]
  split
  case isTrue  => rw [view_scheduler, navilnuxTimeTick_eq, word_at, view_setWord]
  case isFalse => rfl

def indexAfter (n : Nat) : Nat → Word
  | 0     => -1
  | k + 1 => BitVec.ofNat 32 (k % n)

theorem indexAfter_succ (hn : 0 < n) (hl : n < 2 ^ 31) :
    (indexAfter n k + 1).srem (BitVec.ofNat 32 n) = indexAfter n (k + 1) := by
  cases k
  case zero =>
    have hs : indexAfter n 0 + 1 = BitVec.ofNat 32 0 := by rw [indexAfter]; decide
    rw [hs, srem_ofNat (by decide) hl, indexAfter]
  case succ k =>
    have := Nat.mod_lt k hn
    have hs : BitVec.ofNat 32 (k % n) + 1 = BitVec.ofNat 32 (k % n + 1) := (BitVec.ofNat_add ..).symm
    rw [indexAfter, indexAfter, hs, srem_ofNat (by omega) hl, Nat.mod_add_mod]

def Tcb.ofIndex (i : Nat) : Tcb :=
  if h : i < maxTaskNum then .task ⟨i, h⟩ else .dummy

-- The TCB that is selected by the `k`th of these invocations. Before the first one, the kernel itself
-- runs with `dummyTCB`.
def selected (n : Nat) : Nat → Tcb
  | 0     => .dummy
  | k + 1 => .ofIndex (k % n)

theorem selected_succ (hn : 0 < n) (hl : n ≤ maxTaskNum) :
    selected n (k + 1) = .task ⟨k % n, Nat.lt_of_lt_of_le (Nat.mod_lt k hn) hl⟩ :=
  dif_pos <| Nat.lt_of_lt_of_le (Nat.mod_lt k hn) hl

structure Scheduled (L : Image) (n k : Nat) (x : Var → Word) : Prop where
  maxTaskId : x .maxTaskId + 1 = BitVec.ofNat 32 n
  index     : x .index = indexAfter n k
  current   : x .current = if k = 0 then L.tcb .dummy else L.freeTaskPool (indexAfter n k)
  next      : x .next = L.freeTaskPool (if k = 0 then 0 else indexAfter n k)

namespace Scheduled

variable {x y : Var → Word}

theorem start (h : x .maxTaskId + 1 = BitVec.ofNat 32 n) : Scheduled L n 0 (schedStart L x) :=
  ⟨h, rfl, rfl, rfl⟩

theorem step (h : Scheduled L n k x) (hn : 0 < n) (hl : n < 2 ^ 31) :
    Scheduled L n (k + 1) (schedule L x) := by
  have hi : (x .index + 1).srem (x .maxTaskId + 1) = indexAfter n (k + 1) := by
    rw [h.index, h.maxTaskId, indexAfter_succ hn hl]
  exact ⟨h.maxTaskId, hi, congrArg L.freeTaskPool hi, congrArg L.freeTaskPool hi⟩

theorem iterate (h : Scheduled L n 0 (L.view m)) (hn : 0 < n) (hl : n < 2 ^ 31) :
    Scheduled L n k (L.view ((scheduler L)^[k] m)) := by
  induction k
  case zero => exact h
  case succ ih =>
    rw [Function.iterate_succ_apply', view_scheduler]
    exact ih.step hn hl

theorem current_eq (h : Scheduled L n k x) (hn : 0 < n) (hl : n ≤ maxTaskNum) :
    x .current = L.tcb (selected n k) := by
  cases k
  case zero => exact h.current
  case succ => rw [selected_succ hn hl, ← freeTaskPool_ofNat]; exact h.current

theorem next_eq (h : Scheduled L n k x) (hn : 0 < n) (hl : n ≤ maxTaskNum) (hk : k ≠ 0) :
    x .next = L.tcb (selected n k) := by
  have ⟨k, hk⟩ := Nat.exists_eq_add_one_of_ne_zero hk
  subst hk
  rw [selected_succ hn hl, ← freeTaskPool_ofNat]
  exact h.next

theorem congr (h : Scheduled L n k x) (hm : y .maxTaskId = x .maxTaskId) (hi : y .index = x .index)
    (hc : y .current = x .current) (hn : y .next = x .next) : Scheduled L n k y :=
  ⟨hm ▸ h.maxTaskId, hi ▸ h.index, hc ▸ h.current, hn ▸ h.next⟩

end Scheduled

end Task
