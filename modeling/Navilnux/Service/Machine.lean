import Navilnux.Boot.Basic
import Navilnux.Entry.Boot
import Navilnux.Service.Holds

-- The kernel of navilnux/chap16_driver with its system calls. The tasks call the message manager through
-- `navilnux_swiHandler`, and the table of the messages is in the memory.
namespace Service

open Arm Entry Task
open Message (Call NavilMsgMng Reply)

-- The call that a function of navilnux_sys.c makes, if it uses the message manager. The functions pass on
-- their arguments.
def messageCall (a : Fin 4 → Word) : Syscall → Option Call
  | .sysItcsend      => some <| .itcSend (a 0) (a 1)
  | .sysItcget       => some <| .itcGet (a 0)
  | .sysSemp         => some <| .semP (a 0)
  | .sysSemv         => some <| .semV (a 0)
  | .sysMutexwait    => some <| .mutexWait (a 0)
  | .sysMutexrelease => some <| .mutexRelease (a 0)
  | _                => none

inductive Event
  | kernel (e : Entry.Event Word)
  | message (f : Syscall) (e : Message.Event)
  | other (f : Syscall)

def Event.message? : Event → Option Message.Event
  | message _ e => some e
  | _           => none

def messages (es : List Event) : List Message.Event :=
  es.filterMap Event.message?

def Event.kernel? : Event → Option (Entry.Event Word)
  | kernel e => some e
  | _        => none

def kernelEvents (es : List Event) : List (Entry.Event Word) :=
  es.filterMap Event.kernel?

structure TablesKept (L : Image) (m m' : Memory) : Prop extends TableKept L m m' where
  calls : ∀ f : Syscall,
    m'.word (syscallvec L.kernel f.number) = m.word (syscallvec L.kernel f.number)

-- A C function leaves what it computed in the memory `m` to its caller, and uses other memory for itself.
-- If it received a message, the message is at `d`.
structure Leaves (L : Image) (c : Option Call) (d : Word) (m m' : Memory) : Prop
    extends TablesKept L m m' where
  view    : ∀ v, L.kernel.view m' v = L.kernel.view m v
  message : ∀ n, c = some (.itcGet n) → m'.word d = m.word d

structure Pointer (L : Image) (d : Word) : Prop where
  off   : Off L d
  view  : ∀ v, Memory.Apart d (L.kernel.at v)
  calls : ∀ f : Syscall, Memory.Apart d (syscallvec L.kernel f.number)

def reply (c : Call) (d : Word) (t : Cpu) : Reply where
  ret  := t.r 0
  data :=
    match c with
    | .itcGet _ => if t.r 0 = 0 then some (t.mem.word d) else none
    | _         => none

-- `F f` is the address of the C function `f`, and a system call continues at the address that was found in
-- the table of the system calls. Besides of the tables, programs can change the same things as before.
inductive Step (L : Image) (F : Syscall → Word) : Cpu → Event → Cpu → Prop
  | compute {s t : Cpu} : (control t.cpsr = control s.cpsr) →
    (L.kernel.Agree Var.Private s.mem t.mem) → (TablesKept L s.mem t.mem) →
    Step L F s (.kernel .compute) t
  | irq {s t : Cpu} (icip : Word) (k : Clobber) : (control s.cpsr &&& 0x80 = 0) → (Timer icip) →
    (Safe L.kernel k) → (∀ m, TablesKept L m (k.mem m)) →
    (t = run k (navilnuxIrqHandler L.kernel (irqHandler L.kernel icip)) s.takeIrq) →
    Step L F s (.kernel <| .irq icip (L.kernel.view t.mem .index)) t
  | yield {s t : Cpu} (k : Clobber) : (AtYield L.kernel s) →
    (Safe L.kernel k) → (∀ m, TablesKept L m (k.mem m)) → (t = navilnuxSwiHandler L.kernel k s.takeSwi) →
    Step L F s (.kernel <| .yield (L.kernel.view t.mem .index)) t
  | message {s t u : Cpu} (f g : Syscall) (c : Call) (k : Clobber) :
    (AtSwi L.kernel f.number s) → (u = atFunction L.kernel s) → (u.r 11 = F g) →
    (messageCall (args u) g = some c) → (∀ n, c = .itcGet n → Pointer L (args u 1)) →
    (k.r 0 = (exec L (args u 1) u.mem c).1) →
    (Leaves L (some c) (args u 1) (exec L (args u 1) u.mem c).2 (k.mem u.mem)) →
    (t = navilnuxSwiHandler L.kernel k s.takeSwi) →
    Step L F s (.message f ⟨L.kernel.view s.mem .current, c, reply c (args u 1) t⟩) t
  | other {s t u : Cpu} (f g : Syscall) (k : Clobber) :
    (AtSwi L.kernel f.number s) → (u = atFunction L.kernel s) → (u.r 11 = F g) →
    (messageCall (args u) g = none) → (Leaves L none 0 u.mem (k.mem u.mem)) →
    (t = navilnuxSwiHandler L.kernel k s.takeSwi) → Step L F s (.other f) t

-- A machine in which every task owns a set of registers, and the message manager has a table for itself.
structure Machine extends Entry.Machine where
  msgmng : NavilMsgMng

def answered (c : Context) (r : Word) : Context :=
  { c with r := Function.update c.r 0 r, pc := c.pc + 4 }

def Machine.args (n : Nat) (a : Machine) (i : Fin 4) : Word :=
  (a.regs <| a.running n).r (i.castAdd 9)

def Machine.answer (n : Nat) (a : Machine) (r : Word) : Machine := { a with
  regs := Function.update a.regs (a.running n) (answered (a.regs <| a.running n) r)
}

-- A system call is the one with the number of its `swi`, and is made by the running task.
inductive Machine.Step (L : Image) (n : Nat) : Machine → Event → Machine → Prop
  | kernel {a : Machine} {b : Entry.Machine} {e : Entry.Event Word} :
    (Entry.Machine.TimedStep n Timer a.toMachine e b) →
    Step L n a (.kernel e) { b with msgmng := a.msgmng }
  | message {a : Machine} (f : Syscall) (c : Call) : (messageCall (a.args n) f = some c) →
    Step L n a
      (.message f ⟨L.kernel.tcb (a.running n), c, (c.exec (L.kernel.tcb (a.running n)) a.msgmng).1⟩)
      { a.answer n (c.exec (L.kernel.tcb (a.running n)) a.msgmng).1.ret with
        msgmng := (c.exec (L.kernel.tcb (a.running n)) a.msgmng).2 }
  | other {a : Machine} (f : Syscall) (r : Word) : (messageCall (a.args n) f = none) →
    Step L n a (.other f) (a.answer n r)

structure Represents (L : Image) (F : Syscall → Word) (n : Nat) (s : Cpu) (a : Machine) : Prop where
  tasks : Entry.Represents L.kernel n s a.toMachine
  table : Holds L s.mem a.msgmng
  calls : Installed L.kernel F s.mem

def navilnuxInit (L : Image) (F : Syscall → Word) (m : Memory) : Heap.State where
  mem    := (syscallInit L.kernel F <| msgInit L <| taskInit L.kernel m).setWord
    L.kernel.navilnuxTimeTick 0
  memmng := Heap.memInit

def bootMemory (L : Image) (F : Syscall → Word) (fs : List Word) (m : Memory) : Memory :=
  (schedInit L.kernel (navilnuxUser L.kernel fs <| navilnuxInit L F m).mem).2

structure Booted (L : Image) (F : Syscall → Word) (fs : List Word) (s : Cpu) : Prop where
  memory  : ∃ m, L.kernel.Agree Var.Kept (bootMemory L F fs m) s.mem ∧
    TablesKept L (bootMemory L F fs m) s.mem
  control : control s.cpsr = 0x40 ||| 0x13

end Service
