import Mathlib.Logic.Function.Basic
import Navilnux.Base.Memory

-- The driver manager of navilnux/chap16_driver (navilnux_drv.c), and the system calls of navilnux_sys.c
-- that use it.
namespace Driver

def drvLimit : Word := 100

structure NavilFreeDrv where
  navilFops : Word
  usecount  : Word
  drvname   : Word
  deriving DecidableEq

-- The table is indexed by any C `int`, like the array `free_drv_pool`. The functions below also accept
-- the index `drvLimit` behind the array, where the members `init` and `register_drv` of `drvmng` are,
-- and the word after `drvmng`.
abbrev NavilDrvMng := Word → NavilFreeDrv

def NavilDrvMng.setUsecount (p : NavilDrvMng) (i c : Word) : NavilDrvMng :=
  Function.update p i { p i with usecount := c }

structure Code where
  drvInit        : Word
  drvRegisterDrv : Word
  ram            : 0xa0000000 ≤ drvRegisterDrv

-- The addresses in source/chap16/navilnux_elf. The file of navilnux/chap16_driver does not contain the
-- driver manager.
def navilnuxElf : Code where
  drvInit        := 0xa000d6f8
  drvRegisterDrv := 0xa000d5e8
  ram            := by decide

def drvRegisterDrv (drvnum name drvfops : Word) (p : NavilDrvMng) : Word × NavilDrvMng :=
  if drvLimit.slt drvnum ∨ drvnum.slt 0 then (-1, p)
  else if (0 : Word).sle (p drvnum).usecount then (-1, p)
  else (0, Function.update p drvnum { navilFops := drvfops, usecount := 0, drvname := name })

def drvInit (C : Code) (p : NavilDrvMng) : NavilDrvMng := fun i =>
  if i < drvLimit then { navilFops := 0, usecount := -1, drvname := 0 }
  else if i = drvLimit then { p i with navilFops := C.drvInit, usecount := C.drvRegisterDrv }
  else p i

inductive FopsCall
  | openDrv (drvnum mode : Word)
  | readDrv (drvnum buf size : Word)
  | writeDrv (drvnum buf size : Word)
  | closeDrv (drvnum : Word)
  deriving DecidableEq

-- A system call returns a value itself, or it returns what a function of the struct at `navilFops`
-- returns.
inductive Outcome
  | ret (r : Word)
  | call (navilFops : Word) (c : FopsCall)
  deriving DecidableEq

def sysOpen (drvnum mode : Word) (p : NavilDrvMng) : Outcome × NavilDrvMng :=
  if drvLimit.slt drvnum ∨ drvnum.slt 0 then (.ret (-1), p)
  else if (p drvnum).usecount.slt 0 then (.ret (-1), p)
  else
    let p := p.setUsecount drvnum ((p drvnum).usecount + 1)
    (.call (p drvnum).navilFops (.openDrv drvnum mode), p)

def sysClose (drvnum : Word) (p : NavilDrvMng) : Outcome × NavilDrvMng :=
  if drvLimit.slt drvnum ∨ drvnum.slt 0 then (.ret (-1), p)
  else if (p drvnum).usecount.slt 0 then (.ret (-1), p)
  else
    let p := p.setUsecount drvnum ((p drvnum).usecount - 1)
    (.call (p drvnum).navilFops (.closeDrv drvnum), p)

def sysRead (drvnum buf size : Word) (p : NavilDrvMng) : Outcome × NavilDrvMng :=
  if drvLimit.slt drvnum ∨ drvnum.slt 0 then (.ret (-1), p)
  else if (p drvnum).usecount.slt 0 then (.ret (-1), p)
  else (.call (p drvnum).navilFops (.readDrv drvnum buf size), p)

def sysWrite (drvnum buf size : Word) (p : NavilDrvMng) : Outcome × NavilDrvMng :=
  if drvLimit.slt drvnum ∨ drvnum.slt 0 then (.ret (-1), p)
  else if (p drvnum).usecount.slt 0 then (.ret (-1), p)
  else (.call (p drvnum).navilFops (.writeDrv drvnum buf size), p)

inductive Call
  | registerDrv (drvnum name drvfops : Word)
  | sysOpen (drvnum mode : Word)
  | sysClose (drvnum : Word)
  | sysRead (drvnum buf size : Word)
  | sysWrite (drvnum buf size : Word)
  deriving DecidableEq

namespace Call

def drvnum : Call → Word
  | registerDrv n _ _ | sysOpen n _ | sysClose n | sysRead n _ _ | sysWrite n _ _ => n

def exec (p : NavilDrvMng) : Call → Outcome × NavilDrvMng
  | registerDrv n name f => let (r, p) := drvRegisterDrv n name f p; (.ret r, p)
  | sysOpen n mode       => Driver.sysOpen n mode p
  | sysClose n           => Driver.sysClose n p
  | sysRead n buf size   => Driver.sysRead n buf size p
  | sysWrite n buf size  => Driver.sysWrite n buf size p

end Call

structure Event where
  call    : Call
  outcome : Outcome
  ret     : Word
  deriving DecidableEq

inductive Step : NavilDrvMng → Event → NavilDrvMng → Prop
  | intro (c : Call) (r : Word) : (∀ x, (c.exec p).1 = .ret x → r = x) →
    Step p ⟨c, (c.exec p).1, r⟩ (c.exec p).2

end Driver
