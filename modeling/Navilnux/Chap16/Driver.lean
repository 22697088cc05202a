import Navilnux.Driver.Theorems.Slot

-- The driver manager of source/chap16 (navilnux_drv.c), the system calls of navilnux_sys.c that use it, and
-- the registration of the driver of my_drv.c. The table, `drv_register_drv` and `sys_open` are the same
-- as in navilnux/chap16_driver.
namespace Chap16

open Driver (drvLimit NavilFreeDrv NavilDrvMng Call Outcome FopsCall Event drv_rejects_iff)

structure DrvCode extends Driver.Code where
  mydrvFops : Word
  mydrvName : Word
  fopsRam   : 0xa0000000 ≤ mydrvFops

def drvElf : DrvCode where
  toCode    := Driver.navilnuxElf
  mydrvFops := 0xa000df14
  mydrvName := 0xa000ddf8
  fopsRam   := by decide

def mydrv : Word := 0

def mydrvInit (C : DrvCode) (p : NavilDrvMng) : Word × NavilDrvMng :=
  Driver.drvRegisterDrv mydrv C.mydrvName C.mydrvFops p

def drvInit (C : DrvCode) (p : NavilDrvMng) : NavilDrvMng :=
  (mydrvInit C <| Driver.drvInit C.toCode p).2

def sysClose (drvnum : Word) (p : NavilDrvMng) : Outcome × NavilDrvMng :=
  if drvLimit.slt drvnum ∨ drvnum.slt 0 then (.ret (-1), p)
  else
    let p := p.setUsecount drvnum ((p drvnum).usecount - 1)
    (.call (p drvnum).navilFops (.closeDrv drvnum), p)

def sysRead (drvnum buf size : Word) (p : NavilDrvMng) : Outcome × NavilDrvMng :=
  if drvLimit.slt drvnum ∨ drvnum.slt 0 then (.ret (-1), p)
  else (.call (p drvnum).navilFops (.readDrv drvnum buf size), p)

def sysWrite (drvnum buf size : Word) (p : NavilDrvMng) : Outcome × NavilDrvMng :=
  if drvLimit.slt drvnum ∨ drvnum.slt 0 then (.ret (-1), p)
  else (.call (p drvnum).navilFops (.writeDrv drvnum buf size), p)

def drvExec (p : NavilDrvMng) : Call → Outcome × NavilDrvMng
  | .registerDrv n name f => let (r, p) := Driver.drvRegisterDrv n name f p; (.ret r, p)
  | .sysOpen n mode       => Driver.sysOpen n mode p
  | .sysClose n           => sysClose n p
  | .sysRead n buf size   => sysRead n buf size p
  | .sysWrite n buf size  => sysWrite n buf size p

inductive DrvStep : NavilDrvMng → Event → NavilDrvMng → Prop
  | intro (c : Call) (r : Word) : (∀ x, (drvExec p c).1 = .ret x → r = x) →
    DrvStep p ⟨c, (drvExec p c).1, r⟩ (drvExec p c).2

-- What an accepted call does to its slot. Close, read and write do not check that there is a driver.
def drvAccess (s : NavilFreeDrv) : Call → Outcome × NavilFreeDrv
  | .sysClose n          => (.call s.navilFops (.closeDrv n), { s with usecount := s.usecount - 1 })
  | .sysRead n buf size  => (.call s.navilFops (.readDrv n buf size), s)
  | .sysWrite n buf size => (.call s.navilFops (.writeDrv n buf size), s)
  | c                    => c.access s

variable {p : NavilDrvMng} {c : Call}

theorem drvExec_of_not_le (h : ¬(c.drvnum ≤ drvLimit)) : drvExec p c = (.ret (-1), p) := by
  have h' := drv_rejects_iff.mpr h
  cases c
  case registerDrv => exact Call.exec_of_not_le (c := .registerDrv _ _ _) h
  case sysOpen     => exact Call.exec_of_not_le (c := .sysOpen _ _) h
  all_goals exact if_pos h'

theorem drvExec_of_le (h : c.drvnum ≤ drvLimit) : drvExec p c =
    ((drvAccess (p c.drvnum) c).1, Function.update p c.drvnum (drvAccess (p c.drvnum) c).2) := by
  have h' := drv_rejects_iff.not.mpr <| not_not_intro h
  cases c
  case registerDrv => exact Call.exec_of_le (c := .registerDrv _ _ _) h
  case sysOpen     => exact Call.exec_of_le (c := .sysOpen _ _) h
  case sysClose n  =>
    replace h' : ¬(drvLimit.slt n ∨ n.slt 0) := h'
    simp only [drvExec, sysClose, if_neg h', drvAccess, Call.drvnum, NavilDrvMng.setUsecount,
      Function.update_self]
  case sysRead n buf size =>
    replace h' : ¬(drvLimit.slt n ∨ n.slt 0) := h'
    simp only [drvExec, sysRead, if_neg h', drvAccess, Call.drvnum, Function.update_eq_self]
  case sysWrite n buf size =>
    replace h' : ¬(drvLimit.slt n ∨ n.slt 0) := h'
    simp only [drvExec, sysWrite, if_neg h', drvAccess, Call.drvnum, Function.update_eq_self]

end Chap16
