import Navilnux.Base.Layout
import Navilnux.Heap.Basic

-- The task manager and the scheduler of navilnux/chap16_driver (navilnux_task.c and navilnux.c). The
-- functions work on the memory, since the assembly code accesses the same variables.
namespace Task

abbrev maxTaskNum : Nat := 40

def startUsrCpsr : Word := 0x68000050

-- The fields of the struct `Navil_free_task`, in words. The registers `r0` to `r12` are in `context`.
namespace NavilFreeTask

def contextSpsr : Nat := 0

def context : Nat := 1

def contextSp : Nat := 14

def contextLr : Nat := 15

def contextPc : Nat := 16

def sleepEndTick : Nat := 17

abbrev words : Nat := 18

instance : NeZero words :=
  ⟨by decide⟩

end NavilFreeTask

-- The variables of the kernel, and the 16 words at the top of the stack for `svc` mode, to which
-- `navilnux_swiHandler` saves registers.
inductive Global
  | navilnuxCurrent
  | navilnuxNext
  | dummyTCB
  | navilnuxCurrentIndex
  | navilnuxTimeTick
  | taskmng
  | navilnuxSyscallvec
  | svcFrame
  deriving DecidableEq

def svcStack : Word := 0xa0300000

def irqStack : Word := 0xa0380000

-- `taskmng` is the pool of TCBs, followed by `max_task_id` and two function pointers.
def Global.words : Global → Nat
  | navilnuxCurrent | navilnuxNext | navilnuxCurrentIndex | navilnuxTimeTick => 1
  | dummyTCB           => NavilFreeTask.words
  | taskmng            => NavilFreeTask.words * maxTaskNum + 3
  | navilnuxSyscallvec => 255
  | svcFrame           => 16

structure Image extends Layout Global Global.words where
  svcFrame : base .svcFrame + 4 * Global.svcFrame.words = svcStack.toNat

-- The addresses in the file `navilnux_elf`.
def navilnuxElf : Image where
  base
    | .navilnuxCurrent      => 0xa000aa68
    | .navilnuxNext         => 0xa000aa6c
    | .dummyTCB             => 0xa000aa70
    | .navilnuxCurrentIndex => 0xa000aab8
    | .navilnuxTimeTick     => 0xa000aabc
    | .taskmng              => 0xa000acb8
    | .navilnuxSyscallvec   => 0xa000b804
    | .svcFrame             => 0xa02fffc0
  aligned o      := by cases o <;> decide
  bounded o      := by cases o <;> decide
  disjoint o₁ o₂ := by cases o₁ <;> cases o₂ <;> decide
  svcFrame       := rfl

def userTask1 : Word := 0xa000a274

namespace Image

variable (L : Image)

def navilnuxCurrent : Word := L.addr .navilnuxCurrent 0

def navilnuxNext : Word := L.addr .navilnuxNext 0

def navilnuxCurrentIndex : Word := L.addr .navilnuxCurrentIndex 0

def navilnuxTimeTick : Word := L.addr .navilnuxTimeTick 0

def dummyTCB : Word := L.addr .dummyTCB 0

-- `&taskmng.free_task_pool[i]`
def freeTaskPool (i : Word) : Word :=
  L.addr .taskmng 0 + BitVec.ofNat 32 (4 * NavilFreeTask.words) * i

def navilnuxSyscallvec : Word := L.addr .navilnuxSyscallvec 0

def maxTaskId : Word := L.addr .taskmng (NavilFreeTask.words * maxTaskNum)

end Image

def field (a : Word) (j : Nat) : Word :=
  a + BitVec.ofNat 32 (4 * j)

open Heap (State)

variable (L : Image)

def scheduler (m : Memory) : Memory :=
  let m := m.setWord L.navilnuxCurrentIndex (m.word L.navilnuxCurrentIndex + 1)
  let m := m.setWord L.navilnuxCurrentIndex
    ((m.word L.navilnuxCurrentIndex).srem (m.word L.maxTaskId + 1))
  let m := m.setWord L.navilnuxNext (L.freeTaskPool (m.word L.navilnuxCurrentIndex))
  m.setWord L.navilnuxCurrent (m.word L.navilnuxNext)

def schedInit (m : Memory) : Word × Memory :=
  if (m.word L.maxTaskId).slt 0 then (-1, m)
  else
    let m := m.setWord L.navilnuxCurrent L.dummyTCB
    let m := m.setWord L.navilnuxNext (L.freeTaskPool 0)
    (0, m.setWord L.navilnuxCurrentIndex (-1))

-- The body of the loop of `task_init`. The stack pointer and `context` are not initialized.
def initTask (i : Word) (m : Memory) : Memory :=
  let a := L.freeTaskPool i
  let m := m.setWord (field a NavilFreeTask.contextSpsr) 0
  let m := m.setWord (field a NavilFreeTask.contextLr) 0
  let m := m.setWord (field a NavilFreeTask.contextPc) 0
  m.setWord (field a NavilFreeTask.sleepEndTick) 0

def initTasks : Nat → Memory → Memory
  | 0,     m => m
  | n + 1, m => initTask L (BitVec.ofNat 32 n) (initTasks n m)

def taskInit (m : Memory) : Memory :=
  (initTasks L maxTaskNum m).setWord L.maxTaskId (-1)

def taskCreate (startFunc : Word) (s : State) : Word × State :=
  let taskIdx := s.mem.word L.maxTaskId + 1
  let m := s.mem.setWord L.maxTaskId taskIdx
  if (BitVec.ofNat 32 maxTaskNum).slt taskIdx then (-1, ⟨m, s.memmng⟩)
  else
    let (stackTop, memmng) := Heap.memAlloc s.memmng
    if stackTop = 0 then (-2, ⟨m, memmng⟩)
    else
      let a := L.freeTaskPool taskIdx
      let m := m.setWord (field a NavilFreeTask.contextSpsr) startUsrCpsr
      let m := m.setWord (field a NavilFreeTask.contextSp) stackTop
      let m := m.setWord (field a NavilFreeTask.contextPc) startFunc
      (taskIdx, ⟨m, memmng⟩)

-- The other parts of `navilnux_init` do not concern tasks.
def navilnuxInit (m : Memory) : State where
  mem    := (taskInit L m).setWord L.navilnuxTimeTick 0
  memmng := Heap.memInit

def navilnuxUser : List Word → State → State
  | [],      s => s
  | f :: fs, s => navilnuxUser fs (taskCreate L f s).2

def irqHandler (icip : Word) (m : Memory) : Memory :=
  if icip &&& (1 <<< 27) ≠ 0 then
    scheduler L (m.setWord L.navilnuxTimeTick (m.word L.navilnuxTimeTick + 1))
  else m

end Task
