import Navilnux.Message.Basic

-- The blocking functions of navilnux_clib.c. Each of them repeats a system call until it succeeds or
-- its argument is rejected, and calls the scheduler in between.
namespace Clib

open Message (Call Reply NavilMsgMng)

inductive Blocking
  | navilnuxItcGet (itcnum : Word)
  | navilnuxSemP (semnum : Word)
  | navilnuxMutexWait (mutexnum : Word)
  deriving DecidableEq

namespace Blocking

def call : Blocking → Call
  | navilnuxItcGet n    => .itcGet n
  | navilnuxSemP n      => .semP n
  | navilnuxMutexWait n => .mutexWait n

def result (r : Reply) (b : Blocking) : Option Word :=
  if r.ret = 0 then
    match b with
    | navilnuxItcGet _                     => some (r.data.getD 0)
    | navilnuxSemP _ | navilnuxMutexWait _ => some 0
  else if r.ret = -1 then some (-1)
  else none

end Blocking

-- The position of a task: in its own code, before the system call of a blocking function, or before
-- `call_scheduler` in a blocking function.
inductive Pc
  | user
  | poll (b : Blocking)
  | yield (b : Blocking)
  deriving DecidableEq

structure State where
  msgmng : NavilMsgMng
  pc     : Word → Pc

inductive Event
  | enter (t : Word) (b : Blocking)
  | call (e : Message.Event)
  | poll (b : Blocking) (e : Message.Event)
  | resume (t : Word)

-- The interleavings of the tasks. Between two steps of a task any other tasks can make steps.
inductive Step : State → Event → State → Prop
  | enter (t : Word) (b : Blocking) : (s.pc t = .user) →
    Step s (.enter t b) { s with pc := Function.update s.pc t (.poll b) }
  | call (t : Word) (c : Call) : (s.pc t = .user) →
    Step s (.call ⟨t, c, (c.exec t s.msgmng).1⟩) { s with msgmng := (c.exec t s.msgmng).2 }
  | poll (t : Word) (b : Blocking) : (s.pc t = .poll b) →
    Step s (.poll b ⟨t, b.call, (b.call.exec t s.msgmng).1⟩) {
      msgmng := (b.call.exec t s.msgmng).2
      pc := Function.update s.pc t <|
        if b.result (b.call.exec t s.msgmng).1 = none then .yield b else .user
    }
  | resume (t : Word) (b : Blocking) : (s.pc t = .yield b) →
    Step s (.resume t) { s with pc := Function.update s.pc t (.poll b) }

def Event.syscall : Event → Option Message.Event
  | call e | poll _ e    => some e
  | enter .. | resume .. => none

end Clib
