import Navilnux.Entry.Boot

-- The function `navilnux_sleep` (navilnux_clib.c) of tasks that can be interrupted between any two of
-- its accesses to the memory.
namespace Clib.Sleep

open Arm Entry Task

-- The next thing that `navilnux_sleep` does. The accesses to the variables are in the order of the
-- compiled code, and the arguments are the values that were loaded before.
inductive Point
  -- if(navilnux_current->sleep_end_tick == 0)
  | test
  | testEnd (current : Word)
  -- navilnux_current->sleep_end_tick = navilnux_time_tick + sec;
  | arm
  | armCurrent (endTick : Word)
  | armEnd (endTick current : Word)
  -- else if(navilnux_current->sleep_end_tick <= navilnux_time_tick)
  | due
  | dueEnd (current : Word)
  | dueTick (endTick : Word)
  -- navilnux_current->sleep_end_tick = 0;
  | clear
  | clearEnd (current : Word)
  -- call_scheduler();
  | callScheduler
  deriving DecidableEq

-- A call of `navilnux_sleep`. The value `start` is the first one that it read from
-- `navilnux_time_tick`.
structure Frame where
  sec   : Word
  start : Option Word
  point : Point

def Frame.access (L : Image) (m : Memory) (f : Frame) : Option Frame × Memory :=
  match f.point with
  | .test               => (some { f with point := .testEnd (m.word L.navilnuxCurrent) }, m)
  | .testEnd current    =>
    let sleepEndTick := m.word (field current NavilFreeTask.sleepEndTick)
    (some { f with point := if sleepEndTick = 0 then .arm else .due }, m)
  | .arm                =>
    let tick := m.word L.navilnuxTimeTick
    (some { f with start := f.start.or tick, point := .armCurrent (tick + f.sec) }, m)
  | .armCurrent endTick => (some { f with point := .armEnd endTick (m.word L.navilnuxCurrent) }, m)
  | .armEnd endTick current =>
    (some { f with point := .test }, m.setWord (field current NavilFreeTask.sleepEndTick) endTick)
  | .due                => (some { f with point := .dueEnd (m.word L.navilnuxCurrent) }, m)
  | .dueEnd current     =>
    (some { f with point := .dueTick (m.word (field current NavilFreeTask.sleepEndTick)) }, m)
  | .dueTick endTick    =>
    let tick := m.word L.navilnuxTimeTick
    (some { f with point := if endTick ≤ tick then .clear else .callScheduler }, m)
  | .clear              => (some { f with point := .clearEnd (m.word L.navilnuxCurrent) }, m)
  | .clearEnd current   => (none, m.setWord (field current NavilFreeTask.sleepEndTick) 0)
  | .callScheduler      => (some f, m)

structure System where
  cpu    : Cpu
  frames : Fin maxTaskNum → Option Frame
  ticks  : Nat

inductive Access (L : Image) (i : Fin maxTaskNum) (s : System) : System → Prop
  | intro {f : Frame} {c : Cpu} :
    (Runs L s.cpu (.task i)) → (s.frames i = some f) → (f.point ≠ .callScheduler) →
    (control c.cpsr = control s.cpu.cpsr) → (c.mem = (f.access L s.cpu.mem).2) →
    Access L i s { s with
      cpu    := c
      frames := Function.update s.frames i (f.access L s.cpu.mem).1
    }

-- Besides of the accesses of `navilnux_sleep`, programs can do everything but write a
-- `sleep_end_tick`, and outside of `navilnux_sleep` they can also yield.
inductive Step (L : Image) : System → Entry.Event Word → System → Prop
  | irq {s : System} {icip x : Word} {c : Cpu} :
    (KernelStep L s.cpu (.irq icip x) c) →
    Step L s (.irq icip x) { s with cpu := c, ticks := s.ticks + 1 }
  | yield {s : System} {x : Word} {c : Cpu} :
    (∀ i, Runs L s.cpu (.task i) → s.frames i = none) → (KernelStep L s.cpu (.yield x) c) →
    Step L s (.yield x) { s with cpu := c }
  | compute {s : System} {c : Cpu} :
    (KernelStep L s.cpu .compute c) →
    (∀ u, L.view c.mem (.tcb u 17) = L.view s.cpu.mem (.tcb u 17)) →
    Step L s .compute { s with cpu := c }
  | call {s : System} {i : Fin maxTaskNum} {c : Cpu} (sec : Word) :
    (Runs L s.cpu (.task i)) → (s.frames i = none) → (1 ≤ sec.toInt) →
    (control c.cpsr = control s.cpu.cpsr) → (c.mem = s.cpu.mem) →
    Step L s .compute { s with
      cpu    := c
      frames := Function.update s.frames i (some { sec, start := none, point := .test })
    }
  | access {s s' : System} {i : Fin maxTaskNum} :
    (Access L i s s') → Step L s .compute s'
  | callScheduler {s : System} {i : Fin maxTaskNum} {f : Frame} {x : Word} {c : Cpu} :
    (Runs L s.cpu (.task i)) → (s.frames i = some f) → (f.point = .callScheduler) →
    (KernelStep L s.cpu (.yield x) c) →
    Step L s (.yield x) { s with
      cpu    := c
      frames := Function.update s.frames i (some { f with point := .test })
    }

def System.InTime (s : System) (f : Frame) : Prop :=
  s.ticks + f.sec.toNat < 2 ^ 32

def System.boot (c : Cpu) : System where
  cpu      := c
  frames _ := none
  ticks    := 0

end Clib.Sleep
