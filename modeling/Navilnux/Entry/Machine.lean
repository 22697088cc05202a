import Navilnux.Base.Run
import Navilnux.Entry.Context
import Navilnux.Task.Theorems.Scheduler

namespace Task

namespace Var

def Kept : Var → Prop
  | frame _ => False
  | _       => True

-- The variables that only the kernel writes. A task writes `sleep_end_tick` itself.
def Private : Var → Prop
  | frame _ => False
  | tcb _ j => j ≠ 17
  | _       => True

end Var

def Image.Agree (L : Image) (P : Var → Prop) (m m' : Memory) : Prop :=
  ∀ v, P v → L.view m' v = L.view m v

end Task

-- The processor under the control of the kernel.
namespace Entry

open Arm Task

-- `index` is the value of `navilnux_current_index` after the event.
inductive Event (ι : Type)
  | compute
  | irq (i : ι) (index : Word)
  | yield (index : Word)
  deriving DecidableEq

def Safe (L : Image) (k : Clobber) : Prop :=
  ∀ m, L.Agree Var.Kept m (k.mem m)

structure AtYield (L : Image) (s : Cpu) : Prop where
  swi    : s.mem.word s.pc &&& 0x0f000000 = 0x0f000000
  number : s.mem.word s.pc &&& ~~~0xff000000 = sysCallSched
  apart  : ∀ i, Memory.Apart (L.at (.frame i)) s.pc

-- `irqHandler i` is the effect of the C function `irqHandler` for the interrupt `i`. The running
-- program can change all registers, and all of the memory that is not private to the kernel.
inductive Step (L : Image) (irqHandler : ι → Memory → Memory) : Cpu → Event ι → Cpu → Prop
  | compute {s t : Cpu} : (Arm.control t.cpsr = Arm.control s.cpsr) →
    (L.Agree Var.Private s.mem t.mem) → Step L irqHandler s .compute t
  | irq {s t : Cpu} (i : ι) (k : Clobber) : (Arm.control s.cpsr &&& 0x80 = 0) → (Safe L k) →
    (t = run k (navilnuxIrqHandler L (irqHandler i)) s.takeIrq) →
    Step L irqHandler s (.irq i (L.view t.mem .index)) t
  | yield {s t : Cpu} (k : Clobber) : (AtYield L s) → (Safe L k) →
    (t = navilnuxSwiHandler L k s.takeSwi) → Step L irqHandler s (.yield (L.view t.mem .index)) t

instance : Inhabited Clobber where
  default := ⟨fun _ => 0, 0, 0, id⟩

theorem safe_default : Safe L default :=
  fun _ _ _ => rfl

theorem Step.exists_irq {irqHandler : ι → Memory → Memory} {i : ι} {s : Cpu}
    (hc : Arm.control s.cpsr &&& 0x80 = 0) : ∃ x t, Step L irqHandler s (.irq i x) t :=
  ⟨_, _, .irq i default hc safe_default rfl⟩

def Runs (L : Image) (s : Cpu) (u : Tcb) : Prop :=
  L.view s.mem .current = L.tcb u

def TameStep (L : Image) (irqHandler : ι → Memory → Memory) (timer : ι → Prop) (s : Cpu)
    (e : Event ι) (t : Cpu) : Prop :=
  Step L irqHandler s e t ∧ (∀ i x, e = .irq i x → timer i ∨ ¬Runs L s .dummy)

-- What is known of `irqHandler`: an interrupt of the timer counts a tick and calls the scheduler, and
-- other interrupts do not concern the tasks.
structure Handles (L : Image) (irqHandler : ι → Memory → Memory) (timer : ι → Prop) : Prop where
  tick  : ∀ {i m v}, timer i → v.Kept → L.view (irqHandler i m) v =
    schedule L (Function.update (L.view m) .tick (L.view m .tick + 1)) v
  other : ∀ {i m v}, ¬timer i → v.Kept → L.view (irqHandler i m) v = L.view m v

structure Machine where
  switches : Nat
  regs     : Tcb → Context

namespace Machine

def running (n : Nat) (m : Machine) : Tcb :=
  selected n m.switches

-- The running program changes its own registers, and a switch changes no registers at all. The mode
-- and the masked interrupts are not up to the program.
inductive Step (n : Nat) (timer : ι → Prop) : Machine → Event ι → Machine → Prop
  | compute {m : Machine} (c : Context) :
    (Arm.control c.psr = Arm.control (m.regs (m.running n)).psr) →
    Step n timer m .compute { m with regs := Function.update m.regs (m.running n) c }
  | tick : (timer i) →
    Step n timer m (.irq i (indexAfter n (m.switches + 1))) { m with switches := m.switches + 1 }
  | other : (¬timer i) →
    Step n timer m (.irq i (indexAfter n m.switches)) m
  | yield : Step n timer m (.yield (indexAfter n (m.switches + 1))) {
      switches := m.switches + 1
      regs     := Function.update m.regs (m.running n) (yielded (m.regs (m.running n)))
    }

end Machine

def savedContext (x : Var → Word) (t : Tcb) : Context where
  psr := x (.tcb t 0)
  r i := x (.tcb t ⟨i + 1, Nat.lt_of_lt_of_le (Nat.succ_lt_succ i.isLt) (by decide)⟩)
  sp  := x (.tcb t 14)
  lr  := x (.tcb t 15)
  pc  := x (.tcb t 16)

-- The registers of the running program are in the processor, and those of the others in their TCBs.
structure Represents (L : Image) (n : Nat) (s : Cpu) (m : Machine) : Prop where
  scheduled : Scheduled L n m.switches (L.view s.mem)
  running   : s.context = m.regs (m.running n)
  saved     : ∀ {t}, t ≠ m.running n → savedContext (L.view s.mem) t = m.regs t

end Entry
