import Mathlib.Data.Fintype.Basic
import Mathlib.Logic.Function.Basic
import Mathlib.Tactic.FinCases
import Navilnux.Base.Memory

-- An ARM processor, as far as the exception handlers of a small kernel can see it.
namespace Arm

inductive Mode
  | usr
  | irq
  | svc
  deriving DecidableEq

-- The low byte of a program status register: the mask bits, the Thumb bit and the mode.
def control (p : Word) : Byte :=
  p.extractLsb' 0 8

def setControl (p : Word) (c : Byte) : Word :=
  p.extractLsb' 8 24 ++ c

def Mode.ofControl (c : Byte) : Mode :=
  if c &&& 0x1f = 0x12 then irq
  else if c &&& 0x1f = 0x13 then svc
  else usr

instance neZero_thirteen : NeZero 13 :=
  ⟨by decide⟩

inductive Reg
  | r (i : Fin 13)
  | sp
  | lr
  deriving DecidableEq

def r0_r12 : List Reg :=
  [.r 0, .r 1, .r 2, .r 3, .r 4, .r 5, .r 6, .r 7, .r 8, .r 9, .r 10, .r 11, .r 12]

@[simp]
theorem length_r0_r12 : r0_r12.length = 13 :=
  rfl

-- The registers `r0` to `r12` are common to all modes. `pc` is the address of the next instruction.
@[ext]
structure Cpu where
  r    : Fin 13 → Word
  sp   : Mode → Word
  lr   : Mode → Word
  spsr : Mode → Word
  pc   : Word
  cpsr : Word
  mem  : Memory

namespace Cpu

def mode (s : Cpu) : Mode :=
  .ofControl (control s.cpsr)

def zero (s : Cpu) : Bool :=
  s.cpsr.getLsbD 30

def get (s : Cpu) (b : Mode) : Reg → Word
  | .r i => s.r i
  | .sp  => s.sp b
  | .lr  => s.lr b

def set (s : Cpu) (b : Mode) (d : Reg) (v : Word) : Cpu :=
  match d with
  | .r i => { s with r := Function.update s.r i v }
  | .sp  => { s with sp := Function.update s.sp b v }
  | .lr  => { s with lr := Function.update s.lr b v }

def stmia (s : Cpu) (b : Mode) (rs : List Reg) : Cpu := { s with
  mem := s.mem.setWords (s.sp s.mode) (rs.map (s.get b))
  sp  := Function.update s.sp s.mode (s.sp s.mode + BitVec.ofNat 32 (4 * rs.length))
}

def stmfd (s : Cpu) (b : Mode) (rs : List Reg) : Cpu :=
  let a := s.sp s.mode - BitVec.ofNat 32 (4 * rs.length)
  { s with
    mem := s.mem.setWords a (rs.map (s.get b))
    sp  := Function.update s.sp s.mode a
  }

def load (b : Mode) (a : Word) : List Reg → Cpu → Cpu
  | [],      s => s
  | d :: ds, s => load b (a + 4) ds (s.set b d (s.mem.word a))

def ldmia (s : Cpu) (b : Mode) (rs : List Reg) : Cpu :=
  load b (s.sp s.mode) rs { s with
    sp := Function.update s.sp s.mode (s.sp s.mode + BitVec.ofNat 32 (4 * rs.length))
  }

-- `ldmia sp!, {pc}^` returns from an exception.
def ldmiaPc (s : Cpu) : Cpu := { s with
  pc   := s.mem.word (s.sp s.mode)
  cpsr := s.spsr s.mode
  sp   := Function.update s.sp s.mode (s.sp s.mode + 4)
}

def cmp (s : Cpu) (x y : Word) : Cpu :=
  let d := x - y
  { s with
    cpsr :=
      BitVec.ofBool d.msb ++ BitVec.ofBool (d == 0) ++ BitVec.ofBool (y.ule x) ++
      BitVec.ofBool (x.msb != y.msb && x.msb != d.msb) ++ s.cpsr.extractLsb' 0 28
  }

section Cmp

variable {s : Cpu} {x y : Word}

theorem r_cmp : (s.cmp x y).r = s.r := rfl

theorem sp_cmp : (s.cmp x y).sp = s.sp := rfl

theorem lr_cmp : (s.cmp x y).lr = s.lr := rfl

theorem spsr_cmp : (s.cmp x y).spsr = s.spsr := rfl

theorem mem_cmp : (s.cmp x y).mem = s.mem := rfl

end Cmp

def takeIrq (s : Cpu) : Cpu := { s with
  lr   := Function.update s.lr .irq (s.pc + 4)
  spsr := Function.update s.spsr .irq s.cpsr
  cpsr := setControl s.cpsr (control s.cpsr &&& 0x40 ||| 0x92)
}

def takeSwi (s : Cpu) : Cpu := { s with
  lr   := Function.update s.lr .svc (s.pc + 4)
  spsr := Function.update s.spsr .svc s.cpsr
  cpsr := setControl s.cpsr (control s.cpsr &&& 0x40 ||| 0x93)
}

end Cpu

-- What a function that obeys the procedure call standard can change besides of its result: the
-- registers `r0` to `r3`, `r12` and `lr`, the flags, and the memory that it uses for itself.
structure Clobber where
  r     : Fin 13 → Word
  lr    : Word
  flags : BitVec 24
  mem   : Memory → Memory

def Cpu.call (s : Cpu) (f : Memory → Memory) (k : Clobber) : Cpu := { s with
  r i  := if i < 4 ∨ i = 12 then k.r i else s.r i
  lr   := Function.update s.lr s.mode k.lr
  cpsr := k.flags ++ control s.cpsr
  mem  := k.mem (f s.mem)
}

-- `bl` calls a function with a known effect on the memory, and `blr` the function at the address in
-- a register. `stmiaUsr`, `stmfdUsr` and `ldmiaUsr` are the instructions with a `^`, which transfer
-- the registers of user mode. The base register of all of these is `sp`, and it is written back.
inductive Instr
  | msrCpsrC (c : Byte)
  | mov (d : Reg) (k : Word)
  | movReg (d n : Reg)
  | ldrConst (d : Reg) (v : Word)
  | ldr (d n : Reg) (k : Word)
  | add (d n : Reg) (k : Word)
  | sub (d n : Reg) (k : Word)
  | bic (d n : Reg) (k : Word)
  | addReg (d n m : Reg)
  | mul (d n m : Reg)
  | cmp (n : Reg) (k : Word)
  | mrs (d : Reg)
  | msrSpsr (n : Reg)
  | stmia (rs : List Reg)
  | stmiaUsr (rs : List Reg)
  | stmfd (rs : List Reg)
  | stmfdUsr (rs : List Reg)
  | ldmia (rs : List Reg)
  | ldmiaUsr (rs : List Reg)
  | ldmiaPc
  | bl (f : Memory → Memory)
  | blr (n : Reg)

def exec (k : Clobber) (s : Cpu) : Instr → Cpu
  | .msrCpsrC c   => { s with cpsr := setControl s.cpsr c }
  | .mov d v      => s.set s.mode d v
  | .movReg d n   => s.set s.mode d (s.get s.mode n)
  | .ldrConst d v => s.set s.mode d v
  | .ldr d n v    => s.set s.mode d (s.mem.word (s.get s.mode n + v))
  | .add d n v    => s.set s.mode d (s.get s.mode n + v)
  | .sub d n v    => s.set s.mode d (s.get s.mode n - v)
  | .bic d n v    => s.set s.mode d (s.get s.mode n &&& ~~~v)
  | .addReg d n o => s.set s.mode d (s.get s.mode n + s.get s.mode o)
  | .mul d n o    => s.set s.mode d (s.get s.mode n * s.get s.mode o)
  | .cmp n v      => s.cmp (s.get s.mode n) v
  | .mrs d        => s.set s.mode d (s.spsr s.mode)
  | .msrSpsr n    => { s with spsr := Function.update s.spsr s.mode (s.get s.mode n) }
  | .stmia rs     => s.stmia s.mode rs
  | .stmiaUsr rs  => s.stmia .usr rs
  | .stmfd rs     => s.stmfd s.mode rs
  | .stmfdUsr rs  => s.stmfd .usr rs
  | .ldmia rs     => s.ldmia s.mode rs
  | .ldmiaUsr rs  => s.ldmia .usr rs
  | .ldmiaPc      => s.ldmiaPc
  | .bl f         => s.call f k
  | .blr _        => s.call id k

-- Runs instructions that do not branch. All calls are clobbered in the same way, since there is only
-- one of them in each of the routines.
def run (k : Clobber) (is : List Instr) (s : Cpu) : Cpu :=
  is.foldl (exec k) s

theorem run_append {k : Clobber} {is js : List Instr} {s : Cpu} :
    run k (is ++ js) s = run k js (run k is s) :=
  List.foldl_append

@[simp]
theorem control_append {f : BitVec 24} {c : Byte} : control (f ++ c) = c := by
  apply BitVec.eq_of_getLsbD_eq
  intro i hi
  have h : (f ++ c).getLsbD i = c.getLsbD i := by rw [BitVec.getLsbD_append, if_pos hi]
  simpa [control, hi] using h

@[simp]
theorem control_setControl {p : Word} {c : Byte} : control (setControl p c) = c :=
  control_append

@[simp]
theorem control_cmp {s : Cpu} {x y : Word} : control (s.cmp x y).cpsr = control s.cpsr := by
  apply BitVec.eq_of_getLsbD_eq
  intro i hi
  have hl : i < 28 := by omega
  simp only [control, Cpu.cmp, BitVec.getLsbD_extractLsb', BitVec.getLsbD_append]
  simp [hi, hl]

@[simp]
theorem zero_cmp {s : Cpu} {x y : Word} : (s.cmp x y).zero = (x - y == 0) := by
  simp only [Cpu.zero, Cpu.cmp, BitVec.getLsbD_append]
  simp

@[ext]
structure Context where
  psr : Word
  r   : Fin 13 → Word
  sp  : Word
  lr  : Word
  pc  : Word

def Cpu.context (s : Cpu) : Context where
  psr := s.cpsr
  r   := s.r
  sp  := s.sp .usr
  lr  := s.lr .usr
  pc  := s.pc

namespace Context

def words (c : Context) : List Word :=
  [c.psr, c.r 0, c.r 1, c.r 2, c.r 3, c.r 4, c.r 5, c.r 6, c.r 7, c.r 8, c.r 9, c.r 10, c.r 11,
    c.r 12, c.sp, c.lr, c.pc]

def load (m : Memory) (a : Word) : Context where
  psr := m.word a
  r i := m.word (a + BitVec.ofNat 32 (4 * (i + 1)))
  sp  := m.word (a + BitVec.ofNat 32 (4 * 14))
  lr  := m.word (a + BitVec.ofNat 32 (4 * 15))
  pc  := m.word (a + BitVec.ofNat 32 (4 * 16))

def store (m : Memory) (a : Word) (c : Context) : Memory :=
  (m.setWords (a + 4) c.words.tail).setWord a c.psr

variable {m : Memory} {a b v : Word} {c : Context}

theorem word_store {i : Nat} (h : c.words[i]? = some v) :
    (store m a c).word (a + BitVec.ofNat 32 (4 * i)) = v := by
  have hi : i < 17 := (List.getElem?_eq_some_iff.mp h).1
  rw [store]
  cases i
  case zero =>
    have hv : c.psr = v := Option.some.inj h
    rw [Nat.mul_zero, BitVec.add_zero, Memory.word_setWord, hv]
  case succ i =>
    have ha : Memory.Apart a (a + BitVec.ofNat 32 (4 * (i + 1))) := by
      simpa using Memory.Apart.add (a := a) (i := 0) (j := i + 1) (by omega) (by omega) (by omega)
    rw [Memory.word_setWord_of_apart ha,
      show a + BitVec.ofNat 32 (4 * (i + 1)) = a + 4 + BitVec.ofNat 32 (4 * i) by bv_omega]
    exact Memory.word_setWords (by decide : 16 < 2 ^ 29) h

theorem load_store : load (store m a c) a = c := by
  refine Context.ext Memory.word_setWord (funext fun i => word_store ?_) ?_ ?_ ?_
  · fin_cases i <;> rfl
  all_goals exact word_store rfl

theorem word_store_of_apart (h : ∀ i < 17, Memory.Apart (a + BitVec.ofNat 32 (4 * i)) b) :
    (store m a c).word b = m.word b := by
  have h₀ : Memory.Apart a b := by simpa using h 0 (by decide)
  rw [store, Memory.word_setWord_of_apart h₀, Memory.word_setWords_of_apart]
  intro i hi
  have hi : i < 16 := hi
  have := h (i + 1) (by omega)
  rwa [show a + 4 + BitVec.ofNat 32 (4 * i) = a + BitVec.ofNat 32 (4 * (i + 1)) by bv_omega]

end Context

end Arm
