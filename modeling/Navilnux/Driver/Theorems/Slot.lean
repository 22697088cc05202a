import Navilnux.Driver.Basic

namespace Driver

-- The index `drvLimit` is accepted, although the table ends before it.
theorem drv_rejects_iff {n : Word} : (drvLimit.slt n ∨ n.slt 0) ↔ ¬(n ≤ drvLimit) := by
  simp only [BitVec.slt_eq_decide, decide_eq_true_eq, BitVec.toInt_eq_toNat_cond, drvLimit]
  bv_omega

theorem drvInit_of_lt {C : Code} {p : NavilDrvMng} {i : Word} (h : i < drvLimit) :
    drvInit C p i = { navilFops := 0, usecount := -1, drvname := 0 } :=
  if_pos h

namespace Call

def access (s : NavilFreeDrv) : Call → Outcome × NavilFreeDrv
  | registerDrv _ name f =>
    if (0 : Word).sle s.usecount then (.ret (-1), s)
    else (.ret 0, { navilFops := f, usecount := 0, drvname := name })
  | sysOpen n mode       =>
    if s.usecount.slt 0 then (.ret (-1), s)
    else (.call s.navilFops (.openDrv n mode), { s with usecount := s.usecount + 1 })
  | sysClose n           =>
    if s.usecount.slt 0 then (.ret (-1), s)
    else (.call s.navilFops (.closeDrv n), { s with usecount := s.usecount - 1 })
  | sysRead n buf size   =>
    if s.usecount.slt 0 then (.ret (-1), s) else (.call s.navilFops (.readDrv n buf size), s)
  | sysWrite n buf size  =>
    if s.usecount.slt 0 then (.ret (-1), s) else (.call s.navilFops (.writeDrv n buf size), s)

variable {p : NavilDrvMng} {c : Call} {i : Word}

theorem exec_of_not_le (h : ¬(c.drvnum ≤ drvLimit)) : c.exec p = (.ret (-1), p) := by
  replace h := drv_rejects_iff.mpr h
  cases c
  case registerDrv n name f =>
    have h : drvLimit.slt n ∨ n.slt 0 := h
    simp only [exec, drvRegisterDrv, if_pos h]
  all_goals exact if_pos h

theorem guarded {q : Prop} [Decidable q] {o : Outcome} {p' : NavilDrvMng} {s : NavilFreeDrv}
    (hp : p' = Function.update p i s) : (if q then (.ret (-1), p) else (o, p')) =
      ((if q then (.ret (-1), p i) else (o, s)).1,
        Function.update p i (if q then (.ret (-1), p i) else (o, s)).2) := by
  split
  case isTrue  => rw [Function.update_eq_self]
  case isFalse => rw [hp]

theorem exec_of_le (h : c.drvnum ≤ drvLimit) : c.exec p =
    ((c.access (p c.drvnum)).1, Function.update p c.drvnum (c.access (p c.drvnum)).2) := by
  replace h := drv_rejects_iff.not.mpr <| not_not_intro h
  cases c
  case registerDrv n name f =>
    replace h : ¬(drvLimit.slt n ∨ n.slt 0) := h
    simp only [exec, drvRegisterDrv, if_neg h, access, drvnum]
    by_cases hu : (0 : Word).sle (p n).usecount
    case pos => simp only [hu, if_true, Function.update_eq_self]
    case neg => simp only [hu, Bool.false_eq_true, if_false]
  case sysOpen n mode =>
    replace h : ¬(drvLimit.slt n ∨ n.slt 0) := h
    simp only [exec, Driver.sysOpen, if_neg h, NavilDrvMng.setUsecount, Function.update_self]
    exact guarded rfl
  case sysClose n =>
    replace h : ¬(drvLimit.slt n ∨ n.slt 0) := h
    simp only [exec, Driver.sysClose, if_neg h, NavilDrvMng.setUsecount, Function.update_self]
    exact guarded rfl
  case sysRead n buf size =>
    replace h : ¬(drvLimit.slt n ∨ n.slt 0) := h
    simp only [exec, Driver.sysRead, if_neg h]
    exact guarded (Function.update_eq_self n p).symm
  case sysWrite n buf size =>
    replace h : ¬(drvLimit.slt n ∨ n.slt 0) := h
    simp only [exec, Driver.sysWrite, if_neg h]
    exact guarded (Function.update_eq_self n p).symm

theorem exec_frame (h : i ≠ c.drvnum) : (c.exec p).2 i = p i := by
  by_cases hn : c.drvnum ≤ drvLimit
  case pos =>
    rw [exec_of_le hn]
    exact Function.update_of_ne h ..
  case neg => rw [exec_of_not_le hn]

end Call
end Driver
