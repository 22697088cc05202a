import Navilnux.Base.Arm
import Navilnux.Task.Basic

-- The exception handlers of navilnux/chap16_driver (entry.S). Those of source/chap16 only differ in the
-- dispatch of system calls.
namespace Entry

open Arm Task

def sysCallSched : Word := 255

def saveContext : List Instr := [
  .add .sp .sp 4,
  .stmiaUsr r0_r12,
  .stmiaUsr [.sp, .lr],
  .stmia [.lr],
  .sub .sp .sp 68,
  .mrs (.r 1),
  .stmia [.r 1]
]

def restoreContext : List Instr := [
  .ldmia [.r 1],
  .msrSpsr (.r 1),
  .ldmiaUsr r0_r12,
  .ldmiaUsr [.sp, .lr],
  .ldmiaPc
]

def navilnuxIrqHandler (L : Image) (irqHandler : Memory → Memory) : List Instr := [
  .msrCpsrC (0xc0 ||| 0x12),
  .ldrConst .sp L.navilnuxCurrent,
  .ldr .sp .sp 0,
  .sub .lr .lr 4
] ++ saveContext ++ [
  .ldrConst .sp irqStack,
  .bl irqHandler,
  .ldrConst .sp L.navilnuxNext,
  .ldr .sp .sp 0
] ++ restoreContext

def sysScheduler (L : Image) : List Instr := [
  .ldrConst .sp L.navilnuxCurrent,
  .ldr .sp .sp 0
] ++ saveContext ++ [
  .ldrConst .sp svcStack,
  .bl (scheduler L),
  .ldrConst .sp L.navilnuxNext,
  .ldr .sp .sp 0
] ++ restoreContext

def r1_r14 : List Reg :=
  r0_r12.tail ++ [.sp, .lr]

def swiEntry : List Instr := [
  .msrCpsrC (0xc0 ||| 0x13),
  .ldrConst .sp svcStack,
  .stmfd [.lr],
  .stmfdUsr r1_r14,
  .mrs (.r 10),
  .stmfd [.r 10],
  .ldr (.r 10) .lr (-4),
  .bic (.r 10) (.r 10) 0xff000000,
  .cmp (.r 10) sysCallSched
]

def swiDispatch (L : Image) : List Instr := [
  .mov (.r 11) 4,
  .mul (.r 10) (.r 10) (.r 11),
  .ldrConst (.r 11) L.navilnuxSyscallvec,
  .addReg (.r 11) (.r 11) (.r 10),
  .ldr (.r 11) (.r 11) 0,
  .blr (.r 11),
  .ldmia [.r 1],
  .msrSpsr (.r 1),
  .ldmiaUsr r1_r14,
  .ldmiaPc
]

def navilnuxSwiHandler (L : Image) (k : Clobber) (s : Cpu) : Cpu :=
  let s := run k swiEntry s
  if s.zero then run k (sysScheduler L) s else run k (swiDispatch L) s

end Entry
