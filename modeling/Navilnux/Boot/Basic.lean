import Navilnux.Driver.Basic
import Navilnux.Entry.Syscall
import Navilnux.Message.Basic
import Navilnux.Task.Theorems.Create

-- `navilnux_init` of navilnux/chap16_driver (navilnux.c), with all parts of the kernel.
namespace Boot

open Entry Heap Task Task.Image

structure Kernel extends State where
  msgmng : Message.NavilMsgMng
  drvmng : Driver.NavilDrvMng

def Kernel.zeroed : Kernel where
  mem _    := 0
  memmng   := ⟨List.replicate maxMemBlk ⟨0, 0, 0⟩, 0, 0⟩
  msgmng _ := ⟨0, 0⟩
  drvmng _ := ⟨0, 0, 0⟩

-- `os_timer_init` and `os_timer_start` write only to the registers of the timer.
def navilnuxInit (L : Image) (F : Syscall → Word) (k : Kernel) : Kernel where
  mem    := (syscallInit L F <| taskInit L k.mem).setWord L.navilnuxTimeTick 0
  memmng := memInit
  msgmng := Message.msgInit k.msgmng
  drvmng := k.drvmng

variable {L : Image} {F : Syscall → Word} {k : Kernel} {m : Memory} {a : Word} {v : Var} {i : Nat}
variable {n : BitVec 24}

theorem syscallvec_apart_at (hn : n.toNat < syscallNum) :
    Memory.Apart (syscallvec L n) (L.at v) := by
  refine Layout.apart hn Var.offset_lt fun h => ?_
  have hg : Global.navilnuxSyscallvec = v.global := congrArg Prod.fst h
  cases v
  case tcb t _ => cases t <;> nomatch hg
  all_goals nomatch hg

theorem installed_navilnuxInit : Installed L F (navilnuxInit L F k).mem := by
  intro f
  have ha := syscallvec_apart_at (L := L) (v := .tick) (number_lt_syscallNum (f := f))
  exact Memory.word_setWord_of_apart ha.symm |>.trans <| installed_syscallInit f

theorem initTask_word_of_apart (ha : ∀ v, Memory.Apart (L.at v) a) (i : Fin maxTaskNum) :
    (initTask L (BitVec.ofNat 32 i) m).word a = m.word a := by
  have hw {m : Memory} {j : Nat} {x : Word} (hj : j < NavilFreeTask.words) :
      (m.setWord (field (L.freeTaskPool (BitVec.ofNat 32 i)) j) x).word a = m.word a := by
    rw [field_freeTaskPool i hj]
    exact Memory.word_setWord_of_apart (ha _)
  simp (disch := decide) only [initTask, hw]

theorem initTasks_word_of_apart (ha : ∀ v, Memory.Apart (L.at v) a) (hi : i ≤ maxTaskNum) :
    (initTasks L i m).word a = m.word a := by
  induction i
  case zero      => rfl
  case succ i ih => exact initTask_word_of_apart ha ⟨i, hi⟩ |>.trans <| ih <| Nat.le_of_succ_le hi

theorem navilnuxInit_word (hn : n.toNat < syscallNum) (hf : ¬(n ≤ 13)) :
    (navilnuxInit L F k).mem.word (syscallvec L n) = k.mem.word (syscallvec L n) := by
  have ha (v : Var) : Memory.Apart (L.at v) (syscallvec L n) := (syscallvec_apart_at hn).symm
  have hs (f : Syscall) : Memory.Apart (syscallvec L f.number) (syscallvec L n) :=
    syscallvec_apart hn fun he => hf <| he ▸ Nat.le_of_lt_succ Syscall.number_toNat_lt
  rw [navilnuxInit, navilnuxTimeTick_eq, Memory.word_setWord_of_apart (ha _),
    syscallInit_word_of_apart hs, taskInit, maxTaskId_eq, Memory.word_setWord_of_apart (ha _),
    initTasks_word_of_apart ha (Nat.le_refl _)]

end Boot
