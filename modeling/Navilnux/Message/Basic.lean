import Mathlib.Logic.Function.Basic
import Navilnux.Base.Memory
import Navilnux.Base.Run

-- The message manager of navilnux/chap16_driver (navilnux_msg.c). Inter-task messages, semaphores
-- and mutexes share the table `free_msg_pool`.
namespace Message

def maxMsg : Word := 255

def itcStart : Word := 0

def itcEnd : Word := 99

def semStart : Word := 100

def semEnd : Word := 199

def mutexStart : Word := 200

def mutexEnd : Word := 254

@[ext]
structure NavilFreeMsg where
  data : Word
  flag : Word
  deriving DecidableEq

-- The table is indexed by any C `int`, like the array behind it. That the functions below only use
-- the indices `0` to `maxMsg - 1` is a theorem (`Call.slot_lt_maxMsg`).
abbrev NavilMsgMng := Word → NavilFreeMsg

namespace NavilMsgMng

def setData (p : NavilMsgMng) (i d : Word) : NavilMsgMng :=
  Function.update p i { p i with data := d }

def setFlag (p : NavilMsgMng) (i f : Word) : NavilMsgMng :=
  Function.update p i { p i with flag := f }

end NavilMsgMng

def msgInit (p : NavilMsgMng) : NavilMsgMng :=
  fun i => if i < maxMsg then { data := 0, flag := 0 } else p i

def msgItcSend (itcnum data : Word) (p : NavilMsgMng) : Word × NavilMsgMng :=
  if maxMsg.sle itcnum ∨ itcnum.slt 0 then (-1, p)
  else (itcnum, (p.setData itcnum data).setFlag itcnum 1)

-- The second component is what is stored to `*data`, if anything is.
def msgItcGet (itcnum : Word) (p : NavilMsgMng) : Word × Option Word × NavilMsgMng :=
  if maxMsg.sle itcnum ∨ itcnum.slt 0 then (-1, none, p)
  else if (p itcnum).flag = 0 then (-2, none, p)
  else (0, some (p itcnum).data, (p.setFlag itcnum 0).setData itcnum 0)

def msgSemInit (semnum s : Word) (p : NavilMsgMng) : Word × NavilMsgMng :=
  let semnum := semnum + semStart
  if semEnd.slt semnum ∨ semnum.slt semStart then (-1, p)
  else (0, p.setFlag semnum s)

def msgSemP (semnum : Word) (p : NavilMsgMng) : Word × NavilMsgMng :=
  let semnum := semnum + semStart
  if semEnd.slt semnum ∨ semnum.slt semStart then (-1, p)
  else if (p semnum).flag.sle 0 then (-2, p)
  else (0, p.setFlag semnum ((p semnum).flag - 1))

def msgSemV (semnum : Word) (p : NavilMsgMng) : Word × NavilMsgMng :=
  let semnum := semnum + semStart
  if semEnd.slt semnum ∨ semnum.slt semStart then (-1, p)
  else (0, p.setFlag semnum ((p semnum).flag + 1))

def msgMutexWait (current mutexnum : Word) (p : NavilMsgMng) : Word × NavilMsgMng :=
  let mutexnum := mutexnum + mutexStart
  if mutexnum.slt mutexStart ∨ mutexEnd.slt mutexnum then (-1, p)
  else if (p mutexnum).flag = 0 then (0, (p.setFlag mutexnum 1).setData mutexnum current)
  else (-2, p)

def msgMutexRelease (current mutexnum : Word) (p : NavilMsgMng) : Word × NavilMsgMng :=
  let mutexnum := mutexnum + mutexStart
  if mutexEnd.slt mutexnum ∨ mutexnum.slt mutexStart then (-1, p)
  else if (p mutexnum).data ≠ current then (-2, p)
  else (0, (p.setData mutexnum 0).setFlag mutexnum 0)

-- The calls that tasks make to the message manager, through the system calls of navilnux_sys.c or
-- (for `sem_init`) directly.
inductive Call
  | itcSend (itcnum data : Word)
  | itcGet (itcnum : Word)
  | semInit (semnum s : Word)
  | semP (semnum : Word)
  | semV (semnum : Word)
  | mutexWait (mutexnum : Word)
  | mutexRelease (mutexnum : Word)
  deriving DecidableEq

structure Reply where
  ret  : Word
  data : Option Word := none
  deriving DecidableEq

def Call.exec (current : Word) (p : NavilMsgMng) : Call → Reply × NavilMsgMng
  | itcSend n d     => let (r, p) := msgItcSend n d p;             ({ ret := r }, p)
  | itcGet n        => let (r, d, p) := msgItcGet n p;             ({ ret := r, data := d }, p)
  | semInit n s     => let (r, p) := msgSemInit n s p;             ({ ret := r }, p)
  | semP n          => let (r, p) := msgSemP n p;                  ({ ret := r }, p)
  | semV n          => let (r, p) := msgSemV n p;                  ({ ret := r }, p)
  | mutexWait n     => let (r, p) := msgMutexWait current n p;     ({ ret := r }, p)
  | mutexRelease n  => let (r, p) := msgMutexRelease current n p;  ({ ret := r }, p)

structure Event where
  task  : Word
  call  : Call
  reply : Reply
  deriving DecidableEq

-- System calls run with interrupts masked, so a run is an interleaving of whole calls.
inductive Step : NavilMsgMng → Event → NavilMsgMng → Prop
  | intro (t : Word) (c : Call) : Step p ⟨t, c, (c.exec t p).1⟩ (c.exec t p).2

end Message
