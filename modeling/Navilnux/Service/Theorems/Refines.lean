import Navilnux.Service.Runs

namespace Service

open Arm Entry Task Task.Image
open Message (Call)

variable {L : Image} {F : Syscall → Word} {fs : List Word} {n : Nat} {s₀ s t : Cpu} {a : Machine}
variable {es : List Event} {f : Syscall} {c : Call} {r : Fin 13 → Word}

def before (f : Syscall) (r : Fin 13 → Word) (s : Cpu) : Cpu := { s with
  r   := r
  pc  := itcSend
  mem := s.mem.setWord itcSend (0xef#8 ++ f.number)
}

theorem text_apart {a : Word} {g : Global} {i : Nat} (ha : a.toNat < 0xa000aa64) (hi : i < g.words) :
    Memory.Apart a (navilnuxElf.addr g i) := by
  have hb : 0xa000aa68 ≤ navilnuxElf.base g := by rcases g with (g | _) <;> (try cases g) <;> decide
  have hv : (navilnuxElf.addr g i).toNat = navilnuxElf.base g + 4 * i := Layout.addr_toNat hi
  have hl := navilnuxElf.bounded g
  exact .of_le (by omega) (by omega)

theorem before_word {g : Global} {i : Nat} (hi : i < g.words) :
    (before f r s).mem.word (navilnuxElf.addr g i) = s.mem.word (navilnuxElf.addr g i) :=
  Memory.word_setWord_of_apart <| text_apart (by decide) hi

theorem before_tablesKept : TablesKept navilnuxElf s.mem (before f r s).mem where
  data hi := by
    rw [Image.data, Image.data, freeMsgPool_eq]
    exact before_word <| Nat.lt_of_succ_lt <| index_lt hi
  flag hi := by
    rw [Image.flag, Image.flag, freeMsgPool_add_four]
    exact before_word <| index_lt hi
  calls f := before_word (g := .kernel .navilnuxSyscallvec) <| number_lt_syscallNum (f := f)

theorem atSwi_before : AtSwi navilnuxElf.kernel f.number (before f r s) where
  swi     := by
    have h : (0xef#8 ++ f.number) &&& (0x0f#8 ++ 0#24) = 0x0f#8 ++ 0#24 := by
      rw [BitVec.and_append, BitVec.and_zero]
      rfl
    rw [before, Memory.word_setWord]
    exact h
  number  := by
    rw [before, Memory.word_setWord]
    exact BitVec.setWidth_append_eq_right
  apart i := (text_apart (a := itcSend) (g := .kernel .svcFrame) (by decide) i.isLt).symm

theorem step_before : Step navilnuxElf F s (.kernel .compute) (before f r s) :=
  .compute rfl (fun v _ => before_word (g := .kernel v.global) Var.offset_lt) before_tablesKept

theorem represents_before (h : Represents navilnuxElf F n s a) :
    Represents navilnuxElf F n (before f r s)
      { a with regs := Function.update a.regs (a.running n) (before f r s).context } :=
  h.program (fun v _ => before_word (g := .kernel v.global) Var.offset_lt) before_tablesKept

-- The addresses of the functions in the file `navilnux_elf`. The last four are not in the file, and stand
-- behind the others here.
def sysAddress : Syscall → Word
  | .sysMysyscall    => 0xa000a064
  | .sysMysyscall4   => 0xa000a094
  | .sysItcsend      => 0xa000a0d8
  | .sysItcget       => 0xa000a0f0
  | .sysSemp         => 0xa000a108
  | .sysSemv         => 0xa000a120
  | .sysMutexwait    => 0xa000a138
  | .sysMutexrelease => 0xa000a150
  | .sysMalloc       => 0xa000a168
  | .sysFree         => 0xa000a180
  | .sysOpen         => 0xa000a198
  | .sysClose        => 0xa000a1a8
  | .sysRead         => 0xa000a1b8
  | .sysWrite        => 0xa000a1c8

theorem sysAddress_injective : Function.Injective sysAddress := by
  intro f g
  cases f <;> cases g <;> decide

def twoTasks : Cpu :=
  bootCpu navilnuxElf sysAddress [userTask1, userTask1]

theorem booted_twoTasks : Booted navilnuxElf sysAddress [userTask1, userTask1] twoTasks :=
  booted_bootCpu

def wait (i : Fin maxTaskNum) (r : Word) : Event :=
  .message .sysMutexwait ⟨navilnuxElf.kernel.tcb (.task i), .mutexWait 3, { ret := r }⟩

def competition : List Event := [
  wait 1 (-2), .kernel .compute, .kernel (.irq 0x08000000 1),
  wait 0 0, .kernel .compute, .kernel (.irq 0x08000000 0)
]

theorem exists_wait (r₀ : Word) (hr : Run (Step navilnuxElf sysAddress) twoTasks es s)
    (h : Represents navilnuxElf sysAddress 2 s a)
    (hm : ((Call.mutexWait 3).exec (navilnuxElf.kernel.tcb (selected 2 (a.switches + 1))) a.msgmng).1 =
      { ret := r₀ }) : ∃ t b,
    Run (Step navilnuxElf sysAddress) twoTasks
      (.message .sysMutexwait ⟨navilnuxElf.kernel.tcb (selected 2 (a.switches + 1)), .mutexWait 3,
        { ret := r₀ }⟩ :: .kernel .compute ::
        .kernel (.irq 0x08000000 (indexAfter 2 (a.switches + 1))) :: es) t ∧
    Represents navilnuxElf sysAddress 2 t b ∧ b.switches = a.switches + 1 ∧
    b.msgmng = ((Call.mutexWait 3).exec (navilnuxElf.kernel.tcb (selected 2 (a.switches + 1)))
      a.msgmng).2 := by
  have hc := booted_twoTasks.interruptible sysAddress_injective (List.cons_ne_nil _ _) (by decide) hr
  have ⟨t, b, st, hb, hs, hp⟩ := h.exists_irq sysAddress_injective (by decide)
    (by decide) hc (by decide : Timer 0x08000000)
  have hw : messageCall (args (before .sysMutexwait (fun _ => 3) t)) .sysMutexwait =
      some (.mutexWait 3) := rfl
  have ⟨v, d, rv, hd, hs', hp'⟩ := hb.exists_message sysAddress_injective (by decide) (by decide)
    step_before atSwi_before hw nofun
  have hrun : Entry.Machine.running 2 b.toMachine = selected 2 (a.switches + 1) :=
    congrArg (selected 2) hs
  rw [hrun, hp] at rv hp'
  rw [hm] at rv
  exact ⟨v, d, .append (hr.step st) rv, hd, hs'.trans hs, hp'⟩

theorem competition_run : ∃ s, Run (Step navilnuxElf sysAddress) twoTasks competition s := by
  have h := booted_twoTasks.represents (List.cons_ne_nil _ _) (by decide)
  have ⟨s, a, r, h, hs, hp⟩ := exists_wait 0 .init h rfl
  have ⟨s, b, r, h, _⟩ := exists_wait (-2) r h (by rw [hp]; rfl)
  rw [hs] at r
  exact ⟨s, r⟩

-- The kernel with all of its variables in one memory behaves like a machine in which every task has
-- registers for itself, and the message manager has a table for itself.
theorem boot_refines (hb : Booted L F fs s₀) (hF : Function.Injective F) (hf : fs ≠ [])
    (hl : fs.length ≤ maxTaskNum) (r : Run (Step L F) s₀ es s) :
    ∃ a, Run (Machine.Step L fs.length) (.boot L s₀) es a ∧ Represents L F fs.length s a :=
  hb.run hF hf hl r

theorem boot_refines_competition : ∃ s a,
    Run (Machine.Step navilnuxElf 2) (.boot navilnuxElf twoTasks) competition a ∧
    Represents navilnuxElf sysAddress 2 s a := by
  have ⟨s, r⟩ := competition_run
  have ⟨a, r⟩ := boot_refines booted_twoTasks sysAddress_injective (List.cons_ne_nil _ _) (by decide) r
  exact ⟨s, a, r⟩

end Service
