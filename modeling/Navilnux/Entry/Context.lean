import Mathlib.Data.BitVec
import Navilnux.Entry.Basic

namespace Entry

open Arm Task

variable {L : Image} {k : Clobber} {s : Cpu} {b : Mode}

theorem store_eq {m : Memory} {a : Word} {c : Context} : Context.store m a c =
    (((m.setWords (a + 4) (c.words.tail.take 13)).setWords (a + 4 + 52) [c.sp, c.lr]).setWords
      (a + 4 + 52 + 8) [c.pc]).setWords a [c.psr] := by
  have hw : c.words.tail = c.words.tail.take 13 ++ [c.sp, c.lr] ++ [c.pc] := rfl
  rw [Context.store, hw, Memory.setWords_append, Memory.setWords_append]
  have ha : a + 4 + 52 + 8 = a + 4 + BitVec.ofNat 32 (4 * 15) := by bv_omega
  rw [ha]
  rfl

theorem run_saveContext (hm : s.mode = b) (hb : b ≠ .usr) : run k saveContext s = { s with
    mem := Context.store s.mem (s.sp b) ⟨s.spsr b, s.r, s.sp .usr, s.lr .usr, s.lr b⟩
    sp  := Function.update s.sp b (s.sp b + 4)
    r   := Function.update s.r 1 (s.spsr b)
  } := by
  have ha : s.sp b + 4#32 + 52#32 + 8#32 + 4#32 - 68#32 = s.sp b := by bv_omega
  rw [Cpu.mode] at hm
  simp [run, saveContext, exec, Cpu.set, Cpu.get, Cpu.stmia, Cpu.mode, hm, hb.symm, r0_r12, ha,
    store_eq, Context.words]

theorem load_r0_r12 {a : Word} : Cpu.load b a r0_r12 s =
    { s with r i := s.mem.word (a + BitVec.ofNat 32 (4 * i)) } := by
  simp only [r0_r12, Cpu.load, Cpu.set, Cpu.mk.injEq, and_true]
  funext i
  fin_cases i <;> simp [BitVec.add_assoc]

theorem run_restoreContext (hm : s.mode = b) (hb : b ≠ .usr) :
    (run k restoreContext s).context = Context.load s.mem (s.sp b) ∧
    (run k restoreContext s).mem = s.mem := by
  have ha {i : Nat} : 4#32 + BitVec.ofNat 32 (4 * i) = BitVec.ofNat 32 (4 * (i + 1)) := by bv_omega
  rw [Cpu.mode] at hm
  simp [run, restoreContext, exec, Cpu.set, Cpu.get, Cpu.ldmia, load_r0_r12, Cpu.load, Cpu.ldmiaPc,
    Cpu.mode, hm, hb, hb.symm, Context.load, Cpu.context, BitVec.add_assoc, ha]

-- What the handlers do: the registers `c` are saved to the TCB of the current task, `f` is called, and
-- the next task continues.
structure Switched (L : Image) (k : Clobber) (f : Memory → Memory) (m : Memory) (c : Context)
    (t : Cpu) : Prop where
  mem     : t.mem = k.mem (f (Context.store m (m.word L.navilnuxCurrent) c))
  context : t.context = Context.load t.mem (t.mem.word L.navilnuxNext)

theorem run_call {f : Memory → Memory} {a : Word} (hm : s.mode = b) (t : Cpu)
    (ht : t = run k [.ldrConst .sp a, .bl f, .ldrConst .sp L.navilnuxNext, .ldr .sp .sp 0] s) :
    t.mode = b ∧ t.mem = k.mem (f s.mem) ∧ t.sp b = t.mem.word L.navilnuxNext := by
  subst ht
  rw [Cpu.mode] at hm
  simp [run, exec, Cpu.set, Cpu.get, Cpu.call, Cpu.mode, hm]

theorem run_switch {f : Memory → Memory} {a : Word} {m : Memory} {c : Context} (hm : s.mode = b)
    (hb : b ≠ .usr) (hmem : s.mem = m) (ha : s.sp b = m.word L.navilnuxCurrent)
    (hc : c = ⟨s.spsr b, s.r, s.sp .usr, s.lr .usr, s.lr b⟩) :
    Switched L k f m c (run k (saveContext ++
      [.ldrConst .sp a, .bl f, .ldrConst .sp L.navilnuxNext, .ldr .sp .sp 0] ++ restoreContext) s) := by
  subst hmem hc
  rw [run_append, run_append, run_saveContext hm hb]
  have ⟨hm', hmem, hsp⟩ := run_call (L := L) (k := k) (f := f) (a := a) (b := b) (s := { s with
    mem := Context.store s.mem (s.sp b) ⟨s.spsr b, s.r, s.sp .usr, s.lr .usr, s.lr b⟩
    sp  := Function.update s.sp b (s.sp b + 4)
    r   := Function.update s.r 1 (s.spsr b)
  }) hm _ rfl
  have ⟨hc, he⟩ := run_restoreContext (k := k) hm' hb
  constructor
  case mem     => rw [he, hmem, ha]
  case context => rw [hc, he, hsp]

theorem ofControl_irq : Mode.ofControl 210#8 = .irq := by
  decide

theorem ofControl_svc : Mode.ofControl 211#8 = .svc := by
  decide

-- An interrupt saves the registers of the interrupted program, whose next instruction is at
-- `lr - 4`.
theorem irq_switched {f : Memory → Memory} :
    Switched L k f s.mem s.context (run k (navilnuxIrqHandler L f) s.takeIrq) := by
  have hr : run k (navilnuxIrqHandler L f) s.takeIrq =
      run k (saveContext ++ [.ldrConst .sp irqStack, .bl f, .ldrConst .sp L.navilnuxNext,
        .ldr .sp .sp 0] ++ restoreContext)
      (run k [.msrCpsrC (0xc0 ||| 0x12), .ldrConst .sp L.navilnuxCurrent, .ldr .sp .sp 0,
        .sub .lr .lr 4] s.takeIrq) := by
    rw [← run_append, navilnuxIrqHandler]
    simp only [List.append_assoc]
  rw [hr]
  refine run_switch (b := .irq) ?_ (by decide) ?_ ?_ ?_ <;>
    simp [run, exec, Cpu.set, Cpu.get, Cpu.takeIrq, Cpu.mode, ofControl_irq, Cpu.context]

def pushed (s : Cpu) : Memory :=
  ((s.mem.setWords (svcStack - 4) [s.pc + 4]).setWords (svcStack - 60)
    (r1_r14.map (s.get .usr))).setWords (svcStack - 64) [s.cpsr]

def swiNumber (s : Cpu) : Word :=
  (pushed s).word s.pc &&& ~~~0xff000000

structure Dispatched (s t : Cpu) : Prop where
  mode : t.mode = .svc
  mem  : t.mem = pushed s
  regs : (⟨t.spsr .svc, t.r, t.sp .usr, t.lr .usr, t.lr .svc⟩ : Context) =
    { s.context with r := Function.update s.r 10 (swiNumber s), pc := s.pc + 4 }
  sp   : t.sp .svc = svcStack - 64
  zero : t.zero = (swiNumber s - sysCallSched == 0)

theorem run_swiEntry : Dispatched s (run k swiEntry s.takeSwi) := by
  have hp : s.pc + 4#32 + 4294967292#32 = s.pc := by bv_omega
  constructor <;>
    simp [run, swiEntry, exec, Cpu.set, Cpu.get, Cpu.stmfd, Cpu.takeSwi, Cpu.mode, ofControl_svc,
      Cpu.context, swiNumber, pushed, svcStack, r1_r14, r0_r12, Cpu.r_cmp, Cpu.sp_cmp, Cpu.lr_cmp,
      Cpu.spsr_cmp, Cpu.mem_cmp, hp]

theorem sysScheduler_switched (hm : s.mode = .svc) :
    Switched L k (scheduler L) s.mem ⟨s.spsr .svc, s.r, s.sp .usr, s.lr .usr, s.lr .svc⟩
      (run k (sysScheduler L) s) := by
  have hr : run k (sysScheduler L) s =
      run k (saveContext ++ [.ldrConst .sp svcStack, .bl (scheduler L),
        .ldrConst .sp L.navilnuxNext, .ldr .sp .sp 0] ++ restoreContext)
      (run k [.ldrConst .sp L.navilnuxCurrent, .ldr .sp .sp 0] s) := by
    rw [← run_append, sysScheduler]
    simp only [List.append_assoc]
  rw [Cpu.mode] at hm
  rw [hr]
  refine run_switch (b := .svc) ?_ (by decide) ?_ ?_ ?_ <;>
    simp [run, exec, Cpu.set, Cpu.get, Cpu.mode, hm]

-- The registers after a system call of the scheduler. `r10` was used for the number of the call before
-- the registers were saved.
def yielded (c : Context) : Context :=
  { c with r := Function.update c.r 10 sysCallSched, pc := c.pc + 4 }

theorem yield_switched (hn : swiNumber s = sysCallSched) :
    Switched L k (scheduler L) (pushed s) (yielded s.context) (navilnuxSwiHandler L k s.takeSwi) := by
  have h := run_swiEntry (s := s) (k := k)
  have hz : (run k swiEntry s.takeSwi).zero = true := by
    rw [h.zero, hn]
    decide
  have hs := sysScheduler_switched (L := L) (k := k) h.mode
  rw [h.mem, h.regs, hn] at hs
  rw [navilnuxSwiHandler, if_pos hz]
  exact hs

theorem pushed_word {a : Word}
    (h : ∀ i < 16, Memory.Apart (svcStack - 64 + BitVec.ofNat 32 (4 * i)) a) :
    (pushed s).word a = s.mem.word a := by
  rw [pushed, Memory.word_setWords_of_apart, Memory.word_setWords_of_apart,
    Memory.word_setWords_of_apart]
  · intro i hi
    have hi : i = 0 := Nat.lt_one_iff.mp hi
    exact hi ▸ h 15 (by decide)
  · intro i hi
    have hi : i < 14 := hi
    have ha : svcStack - 60 + BitVec.ofNat 32 (4 * i) =
        svcStack - 64 + BitVec.ofNat 32 (4 * (i + 1)) := by bv_omega
    exact ha ▸ h (i + 1) (by omega)
  · intro i hi
    have hi : i = 0 := Nat.lt_one_iff.mp hi
    exact hi ▸ h 0 (by decide)

end Entry
