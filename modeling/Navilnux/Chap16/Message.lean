import Navilnux.Message.Theorems.Slot

-- The message manager of source/chap16 (navilnux_msg.c). The regions of the table have other places than
-- in navilnux/chap16_driver, ITC calls are confined to their region, and mutexes have no owner. The
-- table and `msg_init` are the same.
namespace Chap16

open Message

def mutexStart : Word := 100

def mutexEnd : Word := 199

def semStart : Word := 200

def semEnd : Word := 254

def msgItcSend (itcnum data : Word) (p : NavilMsgMng) : Word × NavilMsgMng :=
  if itcEnd.slt itcnum ∨ itcnum.slt itcStart then (-1, p)
  else (itcnum, (p.setData itcnum data).setFlag itcnum 1)

def msgItcGet (itcnum : Word) (p : NavilMsgMng) : Word × Option Word × NavilMsgMng :=
  if itcEnd.slt itcnum ∨ itcnum.slt itcStart then (-1, none, p)
  else if (p itcnum).flag = 0 then (-2, none, p)
  else (0, some (p itcnum).data, (p.setFlag itcnum 0).setData itcnum 0)

def msgMutexWait (mutexnum : Word) (p : NavilMsgMng) : Word × NavilMsgMng :=
  let mutexnum := mutexnum + mutexStart
  if mutexEnd.slt mutexnum ∨ mutexnum.slt mutexStart then (-1, p)
  else if (p mutexnum).flag = 0 then (0, p.setFlag mutexnum 1)
  else (-2, p)

def msgMutexRelease (mutexnum : Word) (p : NavilMsgMng) : Word × NavilMsgMng :=
  let mutexnum := mutexnum + mutexStart
  if mutexEnd.slt mutexnum ∨ mutexnum.slt mutexStart then (-1, p)
  else (0, p.setFlag mutexnum 0)

def msgSemInit (semnum s : Word) (p : NavilMsgMng) : Word × NavilMsgMng :=
  let semnum := semnum + semStart
  if semEnd.slt semnum ∨ semnum.slt semStart then (-1, p)
  else (0, p.setFlag semnum s)

def msgSemP (semnum : Word) (p : NavilMsgMng) : Word × NavilMsgMng :=
  let semnum := semnum + semStart
  if semEnd.slt semnum ∨ semnum.slt semStart then (-1, p)
  else if (p semnum).flag.sle 0 then (-2, p)
  else (0, p.setFlag semnum ((p semnum).flag - 1))

def msgSemV (semnum : Word) (p : NavilMsgMng) : Word × NavilMsgMng :=
  let semnum := semnum + semStart
  if semEnd.slt semnum ∨ semnum.slt semStart then (-1, p)
  else (0, p.setFlag semnum ((p semnum).flag + 1))

def msgExec (p : NavilMsgMng) : Call → Reply × NavilMsgMng
  | .itcSend n d    => let (r, p) := msgItcSend n d p;    ({ ret := r }, p)
  | .itcGet n       => let (r, d, p) := msgItcGet n p;    ({ ret := r, data := d }, p)
  | .semInit n s    => let (r, p) := msgSemInit n s p;    ({ ret := r }, p)
  | .semP n         => let (r, p) := msgSemP n p;         ({ ret := r }, p)
  | .semV n         => let (r, p) := msgSemV n p;         ({ ret := r }, p)
  | .mutexWait n    => let (r, p) := msgMutexWait n p;    ({ ret := r }, p)
  | .mutexRelease n => let (r, p) := msgMutexRelease n p; ({ ret := r }, p)

def slot : Call → Option Word
  | .itcSend n _ | .itcGet n        => if n ≤ itcEnd then some n else none
  | .semInit n _ | .semP n | .semV n => if n ≤ semEnd - semStart then some (n + semStart) else none
  | .mutexWait n | .mutexRelease n  =>
    if n ≤ mutexEnd - mutexStart then some (n + mutexStart) else none

def access (s : NavilFreeMsg) : Call → Reply × NavilFreeMsg
  | .mutexWait _    =>
    if s.flag = 0 then ({ ret := 0 }, { s with flag := 1 }) else ({ ret := -2 }, s)
  | .mutexRelease _ => ({ ret := 0 }, { s with flag := 0 })
  | c               => c.access 0 s

variable {n i : Word} {p : NavilMsgMng} {c : Call}

theorem itc_rejects_iff : (itcEnd.slt n ∨ n.slt itcStart) ↔ ¬(n ≤ itcEnd) := by
  simp only [BitVec.slt_eq_decide, decide_eq_true_eq, BitVec.toInt_eq_toNat_cond, itcStart, itcEnd]
  bv_omega

theorem mutex_rejects_iff :
    (mutexEnd.slt (n + mutexStart) ∨ (n + mutexStart).slt mutexStart) ↔
      ¬(n ≤ mutexEnd - mutexStart) :=
  region_rejects_iff (by decide) (by decide)

theorem sem_rejects_iff :
    (semEnd.slt (n + semStart) ∨ (n + semStart).slt semStart) ↔ ¬(n ≤ semEnd - semStart) :=
  region_rejects_iff (by decide) (by decide)

theorem msgExec_of_slot (h : slot c = some i) :
    msgExec p c = ((access (p i) c).1, Function.update p i (access (p i) c).2) := by
  cases c
  all_goals
    simp only [slot, Option.ite_none_right_eq_some, Option.some.injEq] at h
    obtain ⟨h, rfl⟩ := h
    have h := not_not_intro h
  case itcSend      =>
    simp only [msgExec, access, Call.access, msgItcSend, itc_rejects_iff, if_neg h]
    simp [NavilMsgMng.setData, NavilMsgMng.setFlag]
  case itcGet       =>
    simp only [msgExec, access, Call.access, msgItcGet, itc_rejects_iff, if_neg h]
    split <;> simp [NavilMsgMng.setData, NavilMsgMng.setFlag]
  case semInit      =>
    simp only [msgExec, access, Call.access, msgSemInit, sem_rejects_iff, if_neg h,
      NavilMsgMng.setFlag]
  case semP         =>
    simp only [msgExec, access, Call.access, msgSemP, sem_rejects_iff, if_neg h]
    split <;> simp [NavilMsgMng.setFlag]
  case semV         =>
    simp only [msgExec, access, Call.access, msgSemV, sem_rejects_iff, if_neg h, NavilMsgMng.setFlag]
  case mutexWait    =>
    simp only [msgExec, access, msgMutexWait, mutex_rejects_iff, if_neg h]
    split <;> simp [NavilMsgMng.setFlag]
  case mutexRelease =>
    simp only [msgExec, access, msgMutexRelease, mutex_rejects_iff, if_neg h, NavilMsgMng.setFlag]

end Chap16
