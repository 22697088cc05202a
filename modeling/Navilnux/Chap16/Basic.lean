import Navilnux.Entry.Basic

-- The kernel of source/chap16. It shares the scheduler, `task_create` and most of entry.S with the
-- one of navilnux/chap16_driver, and it has a second source of interrupts, a switch at the GPIO unit.
namespace Chap16

open Arm Heap Task

abbrev irqNum : Nat := 64

def irq8 : Nat := 8

def maxMemBlk : Nat := 60

def contextNum : Nat := 13

inductive Global
  | kernel (g : Task.Global)
  | navilnuxIrqVector
  | switchPushed
  deriving DecidableEq

def Global.words : Global → Nat
  | kernel g          => g.words
  | navilnuxIrqVector => irqNum
  | switchPushed      => 1

structure Image extends Layout Global Global.words where
  svcFrame : base (.kernel .svcFrame) + 4 * Task.Global.svcFrame.words = svcStack.toNat

-- The addresses in the file `navilnux_elf` of source/chap16.
def navilnuxElf : Image where
  base
    | .kernel .navilnuxCurrent      => 0xa000e038
    | .kernel .navilnuxNext         => 0xa000e03c
    | .kernel .dummyTCB             => 0xa000e040
    | .kernel .navilnuxCurrentIndex => 0xa000e088
    | .kernel .navilnuxTimeTick     => 0xa000e08c
    | .navilnuxIrqVector            => 0xa000e090
    | .kernel .taskmng              => 0xa000e478
    | .kernel .navilnuxSyscallvec   => 0xa000f7dc
    | .switchPushed                 => 0xa0010090
    | .kernel .svcFrame             => 0xa02fffc0
  aligned o      := by rcases o with (o | _ | _) <;> (try cases o) <;> decide
  bounded o      := by rcases o with (o | _ | _) <;> (try cases o) <;> decide
  disjoint o₁ o₂ := by
    rcases o₁ with (o₁ | _ | _) <;> rcases o₂ with (o₂ | _ | _) <;> (try cases o₁) <;>
      (try cases o₂) <;> decide
  svcFrame       := rfl

namespace Image

variable (L : Image)

def kernel : Task.Image where
  toLayout := L.toLayout.comap .kernel (fun _ _ => Global.kernel.inj) fun _ => rfl
  svcFrame := L.svcFrame

def navilnuxIrqVector : Word := L.addr .navilnuxIrqVector 0

def switchPushed : Word := L.addr .switchPushed 0

end Image

def memInit : NavilMemMng where
  freeMemPool := initPool startUsrStackAddr maxMemBlk
  heapStart   := startDyMemAddr
  usedEnd     := startDyMemAddr

-- The body of the loop of `task_init`, which initializes all fields here.
def initTask (L : Task.Image) (i : Word) (m : Memory) : Memory :=
  let a := L.freeTaskPool i
  let m := m.setWord (field a NavilFreeTask.contextSpsr) 0
  let m := m.setWords (field a NavilFreeTask.context) (List.replicate contextNum 0)
  let m := m.setWord (field a NavilFreeTask.contextSp) 0
  let m := m.setWord (field a NavilFreeTask.contextLr) 0
  let m := m.setWord (field a NavilFreeTask.contextPc) 0
  m.setWord (field a NavilFreeTask.sleepEndTick) 0

def initTasks (L : Task.Image) : Nat → Memory → Memory
  | 0,     m => m
  | n + 1, m => initTask L (BitVec.ofNat 32 n) (initTasks L n m)

def taskInit (L : Task.Image) (m : Memory) : Memory :=
  (initTasks L maxTaskNum m).setWord L.maxTaskId (-1)

variable (L : Image)

def navilnuxInit (m : Memory) : State where
  mem    := (taskInit L.kernel (m.setWord L.kernel.navilnuxTimeTick 0)).setWords
    L.navilnuxIrqVector (List.replicate irqNum 0)
  memmng := memInit

def gpio0IrqHandler (m : Memory) : Word × Memory :=
  if m.word L.switchPushed ≠ 0 then (-1, m) else (0, m.setWord L.switchPushed 1)

-- `irqHandler` reads `ICIP` twice. The only function that is ever put into `navilnux_irq_vector` is
-- `gpio0_irq_handler`, and its result is not used.
def irqHandler (icip : Word × Word) (m : Memory) : Memory :=
  let m :=
    if icip.1 &&& (1 <<< 27) ≠ 0 then
      let m := m.setWord L.kernel.navilnuxTimeTick (m.word L.kernel.navilnuxTimeTick + 1)
      scheduler L.kernel m
    else m
  if icip.2 &&& (1 <<< 8) ≠ 0 ∧ m.word (L.navilnuxIrqVector + BitVec.ofNat 32 (4 * irq8)) ≠ 0 then
    (gpio0IrqHandler L m).2
  else m

def swiDispatch : List Instr := [
  .mov (.r 11) 4,
  .movReg (.r 12) (.r 10),
  .mul (.r 10) (.r 12) (.r 11),
  .ldrConst (.r 11) L.kernel.navilnuxSyscallvec,
  .addReg (.r 11) (.r 11) (.r 10),
  .ldr (.r 11) (.r 11) 0,
  .blr (.r 11),
  .ldmia [.r 1],
  .msrSpsr (.r 1),
  .ldmiaUsr Entry.r1_r14,
  .ldmiaPc
]

def navilnuxSwiHandler (k : Clobber) (s : Cpu) : Cpu :=
  let s := run k Entry.swiEntry s
  if s.zero then run k (Entry.sysScheduler L.kernel) s else run k (swiDispatch L) s

end Chap16
