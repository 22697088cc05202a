import Navilnux.Chap16.Basic
import Navilnux.Entry.Machine
import Navilnux.Task.Theorems.Create

namespace Chap16

open Arm Heap Task Task.Image

variable {L : Image} {m : Memory} {v : Var} {n : Nat}

section TaskInit

variable {L : Task.Image}

theorem view_setWords_of_ne {vs : List Word} (i : Fin maxTaskNum) {j : Nat}
    (hj : j + vs.length ≤ NavilFreeTask.words) (hv : ∀ j, v ≠ .tcb (.task i) j) :
    L.view (m.setWords (field (L.freeTaskPool (BitVec.ofNat 32 i)) j) vs) v = L.view m v := by
  refine Memory.word_setWords_of_apart fun k hk => ?_
  have hj : j + k < NavilFreeTask.words := by omega
  have ha : field (L.freeTaskPool (BitVec.ofNat 32 i)) j + BitVec.ofNat 32 (4 * k) =
      L.at (.tcb (.task i) ⟨j + k, hj⟩) := by
    rw [← field_freeTaskPool i hj, field, field, BitVec.add_assoc, ← BitVec.ofNat_add, Nat.mul_add]
  rw [ha]
  exact at_apart (hv _).symm

theorem view_initTask_of_ne (i : Fin maxTaskNum) (hv : ∀ j, v ≠ .tcb (.task i) j) :
    L.view (initTask L (BitVec.ofNat 32 i) m) v = L.view m v := by
  have hc : NavilFreeTask.context + (List.replicate contextNum (0 : Word)).length ≤
      NavilFreeTask.words := by decide
  simp (disch := decide) only [initTask, view_setField, Function.update_of_ne (hv _)]
  rw [view_setWords_of_ne i hc hv]
  simp (disch := decide) only [view_setField, Function.update_of_ne (hv _)]

theorem view_initTask_sleepEnd (i : Fin maxTaskNum) :
    L.view (initTask L (BitVec.ofNat 32 i) m) (.tcb (.task i) 17) = 0 := by
  rw [initTask]
  exact congrFun (view_setField i (by decide)) _ |>.trans <| Function.update_self ..

theorem view_initTasks (hn : n ≤ maxTaskNum) (i : Fin maxTaskNum) (hi : i < n) :
    L.view (initTasks L n m) (.tcb (.task i) 17) = 0 := by
  induction n
  case zero => nomatch hi
  case succ n ih =>
    by_cases h : i = ⟨n, hn⟩
    case pos =>
      rw [h]
      exact view_initTask_sleepEnd ⟨n, hn⟩
    case neg =>
      have hne : (i : Nat) ≠ n := fun he => h <| Fin.ext he
      rw [initTasks, view_initTask_of_ne ⟨n, hn⟩ fun j he => h <| Tcb.task.inj (Var.tcb.inj he).left]
      exact ih (Nat.le_of_succ_le hn) (by omega)

theorem view_initTasks_tick (hn : n ≤ maxTaskNum) :
    L.view (initTasks L n m) .tick = L.view m .tick := by
  induction n
  case zero => rfl
  case succ n ih =>
    have hv (j) : Var.tick ≠ .tcb (.task ⟨n, hn⟩) j := nofun
    exact view_initTask_of_ne ⟨n, hn⟩ hv |>.trans <| ih <| Nat.le_of_succ_le hn

end TaskInit

theorem view_setIrqVector {vs : List Word} (h : vs.length ≤ irqNum) :
    L.kernel.view (m.setWords L.navilnuxIrqVector vs) v = L.kernel.view m v := by
  refine Memory.word_setWords_of_apart fun k hk => ?_
  have hk : k < Global.navilnuxIrqVector.words := Nat.lt_of_lt_of_le hk h
  have ha : L.navilnuxIrqVector + BitVec.ofNat 32 (4 * k) = L.addr .navilnuxIrqVector k := by
    rw [Image.navilnuxIrqVector, Layout.addr_add, Nat.zero_add]
  have h : Memory.Apart (L.addr .navilnuxIrqVector k) (L.addr (.kernel v.global) v.offset) :=
    Layout.apart hk v.offset_lt nofun
  exact ha ▸ h

theorem view_setSwitchPushed {x : Word} :
    L.kernel.view (m.setWord L.switchPushed x) v = L.kernel.view m v := by
  have ha : Memory.Apart (L.addr .switchPushed 0) (L.addr (.kernel v.global) v.offset) :=
    Layout.apart (by decide) v.offset_lt nofun
  exact Memory.word_setWord_of_apart ha

theorem created_navilnuxInit : Created L.kernel maxMemBlk [] (navilnuxInit L m) where
  blocks         := by decide
  length_le      := Nat.zero_le _
  maxTaskId      := by
    rw [navilnuxInit, view_setIrqVector (Nat.le_refl _), taskInit, maxTaskId_eq, view_setWord,
      Function.update_self]
    rfl
  freeMemPool    := initPool_eq
  initialized hf := nomatch hf
  sleepEnd i     := by
    have hne : Var.tcb (.task i) 17 ≠ .maxTaskId := nofun
    rw [navilnuxInit, view_setIrqVector (Nat.le_refl _), taskInit, maxTaskId_eq, view_setWord,
      Function.update_of_ne hne, view_initTasks (Nat.le_refl _) i i.isLt]
  tick           := by
    have hne : Var.tick ≠ .maxTaskId := nofun
    rw [navilnuxInit, view_setIrqVector (Nat.le_refl _), taskInit, maxTaskId_eq, view_setWord,
      Function.update_of_ne hne, view_initTasks_tick (Nat.le_refl _), navilnuxTimeTick_eq,
      view_setWord, Function.update_self]

def Timer (icip : Word × Word) : Prop :=
  icip.1 &&& (1 <<< 27) ≠ 0

instance : DecidablePred Timer :=
  fun icip => inferInstanceAs <| Decidable (icip.1 &&& (1 <<< 27) ≠ 0)

theorem view_gpio0IrqHandler : L.kernel.view (gpio0IrqHandler L m).2 v = L.kernel.view m v := by
  rw [gpio0IrqHandler]
  split
  case isTrue  => rfl
  case isFalse => exact view_setSwitchPushed

theorem irqHandler_eq {icip : Word × Word} : irqHandler L icip m =
    if icip.2 &&& (1 <<< 8) ≠ 0 ∧ (Task.irqHandler L.kernel icip.1 m).word
        (L.navilnuxIrqVector + BitVec.ofNat 32 (4 * irq8)) ≠ 0 then
      (gpio0IrqHandler L <| Task.irqHandler L.kernel icip.1 m).2
    else Task.irqHandler L.kernel icip.1 m := by
  rw [irqHandler, Task.irqHandler]

theorem view_irqHandler {icip : Word × Word} : L.kernel.view (irqHandler L icip m) v =
    L.kernel.view (Task.irqHandler L.kernel icip.1 m) v := by
  rw [irqHandler_eq]
  generalize Task.irqHandler L.kernel icip.1 m = m'
  split
  case isTrue  => exact view_gpio0IrqHandler
  case isFalse => rfl

theorem handles_irqHandler : Entry.Handles L.kernel (irqHandler L) Timer where
  tick ht _  := by rw [view_irqHandler, Task.view_irqHandler]; exact congrFun (if_pos ht) _
  other ht _ := by rw [view_irqHandler, Task.view_irqHandler]; exact congrFun (if_neg ht) _

structure Booted (L : Image) (fs : List Word) (s : Cpu) : Prop where
  memory  : ∃ m, L.kernel.Agree Var.Kept
    (schedInit L.kernel (navilnuxUser L.kernel fs (navilnuxInit L m)).mem).2 s.mem
  control : Arm.control s.cpsr = 0x40 ||| 0x13

def bootCpu (L : Image) (fs : List Word) : Cpu where
  r _    := 0
  sp _   := 0
  lr _   := 0
  spsr _ := 0
  pc     := 0
  cpsr   := 0x53
  mem    := (schedInit L.kernel (navilnuxUser L.kernel fs (navilnuxInit L fun _ => 0)).mem).2

namespace Booted

variable {fs : List Word} {s : Cpu}

theorem bootCpu : Booted L fs (bootCpu L fs) where
  memory  := ⟨_, fun _ _ => rfl⟩
  control := (by decide : Arm.control 0x53 = 0x40 ||| 0x13)

theorem scheduled (hb : Booted L fs s) (hf : fs ≠ []) (hl : fs.length ≤ maxTaskNum) :
    Scheduled L.kernel fs.length 0 (L.kernel.view s.mem) := by
  have ⟨m, hm⟩ := hb.memory
  have hc := created_navilnuxInit (L := L) (m := m) |>.append hl
  exact hc.scheduled hf |>.congr (hm _ trivial) (hm _ trivial) (hm _ trivial) (hm _ trivial)

end Booted

end Chap16
