import Navilnux.Entry.Machine

-- The system calls of navilnux/chap16_driver (syscalltbl.h and navilnux_sys.c), and where
-- `navilnux_swiHandler` continues for each of their numbers.
namespace Entry

open Arm Task

def syscallNum : Nat := 255

inductive Syscall
  | sysMysyscall
  | sysMysyscall4
  | sysItcsend
  | sysItcget
  | sysSemp
  | sysSemv
  | sysMutexwait
  | sysMutexrelease
  | sysMalloc
  | sysFree
  | sysOpen
  | sysClose
  | sysRead
  | sysWrite
  deriving DecidableEq

namespace Syscall

-- The number of a call is the immediate operand of `swi`, and the index into `navilnux_syscallvec`.
def number : Syscall → BitVec 24
  | sysMysyscall    => 0
  | sysMysyscall4   => 1
  | sysItcsend      => 2
  | sysItcget       => 3
  | sysSemp         => 4
  | sysSemv         => 5
  | sysMutexwait    => 6
  | sysMutexrelease => 7
  | sysMalloc       => 8
  | sysFree         => 9
  | sysOpen         => 10
  | sysClose        => 11
  | sysRead         => 12
  | sysWrite        => 13

def all : List Syscall := [
  sysMysyscall, sysMysyscall4, sysItcsend, sysItcget, sysSemp, sysSemv, sysMutexwait,
  sysMutexrelease, sysMalloc, sysFree, sysOpen, sysClose, sysRead, sysWrite
]

end Syscall

def syscallvec (L : Image) (n : BitVec 24) : Word :=
  L.addr .navilnuxSyscallvec n.toNat

-- `F f` is the address of the C function `f`.
def syscallInit (L : Image) (F : Syscall → Word) (m : Memory) : Memory :=
  Syscall.all.foldl (fun m f => m.setWord (syscallvec L f.number) (F f)) m

def Installed (L : Image) (F : Syscall → Word) (m : Memory) : Prop :=
  ∀ f, m.word (syscallvec L f.number) = F f

structure AtSwi (L : Image) (n : BitVec 24) (s : Cpu) : Prop where
  swi    : s.mem.word s.pc &&& 0x0f000000 = 0x0f000000
  number : (s.mem.word s.pc).setWidth 24 = n
  apart  : ∀ i, Memory.Apart (L.at (.frame i)) s.pc

def swiLookup (L : Image) : List Instr := [
  .mov (.r 11) 4,
  .mul (.r 10) (.r 10) (.r 11),
  .ldrConst (.r 11) L.navilnuxSyscallvec,
  .addReg (.r 11) (.r 11) (.r 10)
]

def swiReturn : List Instr := [
  .ldmia [.r 1],
  .msrSpsr (.r 1),
  .ldmiaUsr r1_r14,
  .ldmiaPc
]

theorem swiDispatch_eq {L : Image} : swiDispatch L =
    swiLookup L ++ [.ldr (.r 11) (.r 11) 0] ++ [.blr (.r 11)] ++ swiReturn :=
  rfl

-- What `navilnux_swiHandler` does after the number is known: it calls the scheduler, or the function at
-- the address `target` that it read from `slot`, or it goes back to the program with an error code. There
-- is no code for the last case.
inductive Branch
  | scheduler
  | function (slot target : Word)
  | refuse (code : Word)
  deriving DecidableEq

-- The states before `beq sys_scheduler`, before the table is read, and before the function is called. No
-- other function is called before.
def atScheduler (s : Cpu) : Cpu :=
  run default swiEntry s.takeSwi

def atLookup (L : Image) (s : Cpu) : Cpu :=
  run default (swiLookup L) (atScheduler s)

def atFunction (L : Image) (s : Cpu) : Cpu :=
  run default [.ldr (.r 11) (.r 11) 0] (atLookup L s)

def branch (L : Image) (s : Cpu) : Branch :=
  if (atScheduler s).zero then .scheduler
  else .function ((atLookup L s).r 11) ((atFunction L s).r 11)

def args (s : Cpu) (i : Fin 4) : Word :=
  s.r (i.castAdd 9)

-- A C function that obeys the procedure call standard. What it does depends on its arguments and the
-- memory, and it does not change the part of the stack that belongs to its caller.
structure Handler (L : Image) where
  exec  : (Fin 4 → Word) → Memory → Clobber
  keeps : ∀ a m i, L.view ((exec a m).mem m) (.frame i) = L.view m (.frame i)

def systemCall (L : Image) (code : Word → Handler L) (s : Cpu) : Cpu :=
  let u := atFunction L s
  navilnuxSwiHandler L ((code <| u.r 11).exec (args u) u.mem) s.takeSwi

variable {L : Image} {F : Syscall → Word} {m : Memory} {s : Cpu} {k : Clobber} {n : BitVec 24}
variable {f g : Syscall}

namespace Syscall

theorem mem_all : f ∈ all := by
  cases f <;> decide

theorem number_toNat_lt : f.number.toNat < 14 := by
  cases f <;> decide

theorem all_getElem? : all[f.number.toNat]? = some f := by
  cases f <;> rfl

theorem number_inj (h : f.number = g.number) : f = g :=
  Option.some.inj <| all_getElem?.symm.trans <| h ▸ all_getElem?

theorem exists_number (h : n ≤ 13) : ∃ f : Syscall, f.number = n := by
  have h : n.toNat < all.length := Nat.lt_succ_of_le h
  refine ⟨all[n.toNat], BitVec.eq_of_toNat_eq ?_⟩
  have hn : ∀ i (hi : i < all.length), all[i].number.toNat = i := by decide
  exact hn n.toNat h

end Syscall

theorem navilnuxSyscallvec_add :
    L.navilnuxSyscallvec + BitVec.ofNat 32 (4 * n.toNat) = syscallvec L n :=
  Layout.addr_add .. |>.trans <| congrArg _ <| Nat.zero_add _

theorem number_lt_syscallNum : f.number.toNat < syscallNum :=
  Nat.lt_trans Syscall.number_toNat_lt (by decide)

theorem syscallvec_apart (hn : n.toNat < syscallNum) (hf : f.number ≠ n) :
    Memory.Apart (syscallvec L f.number) (syscallvec L n) :=
  Layout.apart number_lt_syscallNum hn fun h => hf <| BitVec.eq_of_toNat_eq <| congrArg Prod.snd h

theorem word_foldl {fs : List Syscall} (h : f ∈ fs ∨ m.word (syscallvec L f.number) = F f) :
    (fs.foldl (fun m f => m.setWord (syscallvec L f.number) (F f)) m).word (syscallvec L f.number) =
    F f := by
  induction fs generalizing m
  case nil          => exact h.resolve_left List.not_mem_nil
  case cons g fs ih =>
    refine ih ?_
    by_cases hg : g = f
    case pos => exact .inr <| hg ▸ Memory.word_setWord
    case neg =>
      refine h.imp (fun h => List.mem_cons.mp h |>.resolve_left (Ne.symm hg)) fun h => ?_
      have ha := syscallvec_apart (L := L) number_lt_syscallNum fun hn => hg <| Syscall.number_inj hn
      exact (Memory.word_setWord_of_apart ha).trans h

theorem installed_syscallInit : Installed L F (syscallInit L F m) :=
  fun _ => word_foldl <| .inl Syscall.mem_all

theorem syscallInit_word_of_apart {a : Word}
    (h : ∀ f : Syscall, Memory.Apart (syscallvec L f.number) a) :
    (syscallInit L F m).word a = m.word a := by
  rw [syscallInit]
  induction Syscall.all generalizing m
  case nil     => rfl
  case cons ih => exact ih.trans <| Memory.word_setWord_of_apart (h _)

theorem pushed_syscallvec (hn : n.toNat < syscallNum) :
    (pushed s).word (syscallvec L n) = s.mem.word (syscallvec L n) := by
  refine pushed_word fun i hi => ?_
  rw [← Image.at_frame (L := L) ⟨i, hi⟩]
  exact Layout.apart hi hn fun h => nomatch congrArg Prod.fst h

theorem and_mask (w : Word) : w &&& ~~~0xff000000 = BitVec.ofNat 32 (w.setWidth 24).toNat := by
  apply BitVec.eq_of_toNat_eq
  have hm : (~~~0xff000000 : Word).toNat = 2 ^ 24 - 1 := rfl
  rw [BitVec.toNat_and, hm, Nat.and_two_pow_sub_one_eq_mod, BitVec.toNat_setWidth,
    BitVec.toNat_ofNat]
  omega

theorem AtSwi.swiNumber (h : AtSwi L n s) : swiNumber s = BitVec.ofNat 32 n.toNat := by
  rw [Entry.swiNumber, pushed_word fun i hi => ?_, and_mask, h.number]
  exact Image.at_frame (L := L) ⟨i, hi⟩ ▸ h.apart ⟨i, hi⟩

theorem AtSwi.zero (h : AtSwi L n s) : (atScheduler s).zero = decide (n = 255) := by
  rw [atScheduler, run_swiEntry.zero, h.swiNumber, sysCallSched, Bool.eq_iff_iff]
  simp only [beq_iff_eq, decide_eq_true_eq]
  bv_omega

theorem run_swiLookup : run k (swiLookup L) s = { s with
    r := Function.update (Function.update s.r 10 (s.r 10 * 4)) 11
      (L.navilnuxSyscallvec + s.r 10 * 4)
  } := by
  simp only [run, swiLookup, List.foldl, exec, Cpu.set, Cpu.get, Cpu.mk.injEq, and_true]
  funext i
  by_cases h₁ : i = 11 <;> by_cases h₂ : i = 10 <;> simp_all [Function.update]

theorem run_ldr : run k [.ldr (.r 11) (.r 11) 0] s = { s with
    r := Function.update s.r 11 (s.mem.word (s.r 11))
  } := by
  simp [run, exec, Cpu.set, Cpu.get]

theorem dispatched : Dispatched s (atScheduler s) :=
  run_swiEntry

theorem r_atScheduler : (atScheduler s).r = Function.update s.r 10 (swiNumber s) :=
  congrArg Context.r (dispatched (s := s)).regs

theorem AtSwi.mul_four (h : AtSwi L n s) :
    (atScheduler s).r 10 * 4 = BitVec.ofNat 32 (4 * n.toNat) := by
  rw [r_atScheduler, Function.update_self, h.swiNumber, BitVec.mul_comm, BitVec.ofNat_mul]
  rfl

theorem AtSwi.slot (h : AtSwi L n s) : (atLookup L s).r 11 = syscallvec L n := by
  rw [← navilnuxSyscallvec_add, ← h.mul_four, atLookup, run_swiLookup]
  simp only [Function.update_self]

structure Called (L : Image) (n : BitVec 24) (s u : Cpu) : Prop where
  mode   : u.mode = .svc
  mem    : u.mem = pushed s
  sp     : u.sp .svc = svcStack - 64
  target : u.r 11 = (pushed s).word (syscallvec L n)
  args   : args u = args s

theorem atFunction_eq : atFunction L s = { atScheduler s with
    r := Function.update (Function.update (atScheduler s).r 10 ((atScheduler s).r 10 * 4)) 11
      ((atScheduler s).mem.word (L.navilnuxSyscallvec + (atScheduler s).r 10 * 4))
  } := by
  rw [atFunction, run_ldr, atLookup, run_swiLookup]
  simp only [Function.update_self, Function.update_idem]

theorem AtSwi.called (h : AtSwi L n s) : Called L n s (atFunction L s) := by
  have ⟨hm, hmem, _, hsp, _⟩ := dispatched (s := s)
  rw [Cpu.mode] at hm
  rw [atFunction_eq, h.mul_four, navilnuxSyscallvec_add]
  constructor
  case mode   => exact hm
  case mem    => simp only [hmem]
  case sp     => exact hsp
  case target => simp only [Function.update_self, hmem]
  case args   =>
    funext i
    rw [r_atScheduler]
    fin_cases i <;> simp [Entry.args]

theorem handler_of_function {slot target : Word} (h : branch L s = .function slot target) :
    navilnuxSwiHandler L k s.takeSwi = run k swiReturn ((atFunction L s).call id k) ∧
    (atFunction L s).r 11 = target := by
  rw [branch] at h
  split at h
  case isTrue hz  => nomatch h
  case isFalse hz =>
    injection h with hs ht
    refine ⟨?_, ht⟩
    have hr : navilnuxSwiHandler L k s.takeSwi = run k (swiDispatch L) (atScheduler s) := if_neg hz
    rw [hr, swiDispatch_eq, run_append, run_append, run_append, run_swiLookup, run_ldr, atFunction,
      run_ldr, atLookup, run_swiLookup]
    rfl

theorem AtSwi.branch (h : AtSwi L n s) : branch L s =
    if n = 255 then .scheduler
    else .function (syscallvec L n) ((pushed s).word (syscallvec L n)) := by
  simp only [Entry.branch, h.zero, h.slot, h.called.target, decide_eq_true_eq]

end Entry
