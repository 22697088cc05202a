import Navilnux.Message.Theorems.Slot
import Navilnux.Task.View

-- The message manager of navilnux/chap16_driver, as navilnux_msg.c works on the memory of the kernel. The
-- manager in `Message` has a table for itself instead.
namespace Service

open Message (Call NavilFreeMsg NavilMsgMng maxMsg semStart semEnd mutexStart mutexEnd)

-- The variables of the kernel, with the message manager: the slots of `free_msg_pool` have two words each,
-- and 8 function pointers follow.
inductive Global
  | kernel (g : Task.Global)
  | msgmng
  deriving DecidableEq

def Global.words : Global → Nat
  | kernel g => g.words
  | msgmng   => 2 * 255 + 8

theorem Global.kernel_injective : Function.Injective Global.kernel :=
  fun _ _ => kernel.inj

theorem Global.words_kernel (g : Task.Global) : g.words = (kernel g).words :=
  rfl

structure Image extends Layout Global Global.words where
  positive : ∀ o, 0 < base o
  svcFrame : base (.kernel .svcFrame) + 4 * Task.Global.svcFrame.words = Task.svcStack.toNat

-- The addresses in the file `navilnux_elf`.
def navilnuxElf : Image where
  base
    | .kernel g => Task.navilnuxElf.base g
    | .msgmng   => 0xa000bc00
  aligned o      := by rcases o with (o | _) <;> (try cases o) <;> decide
  bounded o      := by rcases o with (o | _) <;> (try cases o) <;> decide
  disjoint o₁ o₂ := by
    rcases o₁ with (o₁ | _) <;> rcases o₂ with (o₂ | _) <;> (try cases o₁) <;> (try cases o₂) <;> decide
  positive o     := by rcases o with (o | _) <;> (try cases o) <;> decide
  svcFrame       := rfl

namespace Image

variable (L : Image)

def kernel : Task.Image where
  toLayout := L.toLayout.comap .kernel Global.kernel_injective Global.words_kernel
  svcFrame := L.svcFrame

-- `&msgmng.free_msg_pool[i]`
def freeMsgPool (i : Word) : Word :=
  L.addr .msgmng 0 + 8 * i

def data (m : Memory) (i : Word) : Word :=
  m.word (L.freeMsgPool i)

def flag (m : Memory) (i : Word) : Word :=
  m.word (L.freeMsgPool i + 4)

def setData (i v : Word) (m : Memory) : Memory :=
  m.setWord (L.freeMsgPool i) v

def setFlag (i v : Word) (m : Memory) : Memory :=
  m.setWord (L.freeMsgPool i + 4) v

end Image

variable (L : Image)

def initSlots : Nat → Memory → Memory
  | 0,     m => m
  | n + 1, m => L.setFlag (BitVec.ofNat 32 n) 0 <| L.setData (BitVec.ofNat 32 n) 0 <| initSlots n m

def msgInit (m : Memory) : Memory :=
  initSlots L maxMsg.toNat m

def msgItcSend (itcnum data : Word) (m : Memory) : Word × Memory :=
  if maxMsg.sle itcnum ∨ itcnum.slt 0 then (-1, m)
  else (itcnum, L.setFlag itcnum 1 <| L.setData itcnum data m)

def msgItcGet (itcnum data : Word) (m : Memory) : Word × Memory :=
  if maxMsg.sle itcnum ∨ itcnum.slt 0 then (-1, m)
  else if L.flag m itcnum = 0 then (-2, m)
  else (0, L.setData itcnum 0 <| L.setFlag itcnum 0 <| m.setWord data (L.data m itcnum))

def msgSemInit (semnum s : Word) (m : Memory) : Word × Memory :=
  let semnum := semnum + semStart
  if semEnd.slt semnum ∨ semnum.slt semStart then (-1, m)
  else (0, L.setFlag semnum s m)

def msgSemP (semnum : Word) (m : Memory) : Word × Memory :=
  let semnum := semnum + semStart
  if semEnd.slt semnum ∨ semnum.slt semStart then (-1, m)
  else if (L.flag m semnum).sle 0 then (-2, m)
  else (0, L.setFlag semnum (L.flag m semnum - 1) m)

def msgSemV (semnum : Word) (m : Memory) : Word × Memory :=
  let semnum := semnum + semStart
  if semEnd.slt semnum ∨ semnum.slt semStart then (-1, m)
  else (0, L.setFlag semnum (L.flag m semnum + 1) m)

def msgMutexWait (mutexnum : Word) (m : Memory) : Word × Memory :=
  let mutexnum := mutexnum + mutexStart
  if mutexnum.slt mutexStart ∨ mutexEnd.slt mutexnum then (-1, m)
  else if L.flag m mutexnum = 0 then
    let m := L.setFlag mutexnum 1 m
    (0, L.setData mutexnum (m.word L.kernel.navilnuxCurrent) m)
  else (-2, m)

def msgMutexRelease (mutexnum : Word) (m : Memory) : Word × Memory :=
  let mutexnum := mutexnum + mutexStart
  if mutexEnd.slt mutexnum ∨ mutexnum.slt mutexStart then (-1, m)
  else if L.data m mutexnum ≠ m.word L.kernel.navilnuxCurrent then (-2, m)
  else (0, L.setFlag mutexnum 0 <| L.setData mutexnum 0 m)

-- A call of a function of the manager. Only `msg_itc_get` has the pointer `data` as an argument.
def exec (data : Word) (m : Memory) : Call → Word × Memory
  | .itcSend n d     => msgItcSend L n d m
  | .itcGet n        => msgItcGet L n data m
  | .semInit n s     => msgSemInit L n s m
  | .semP n          => msgSemP L n m
  | .semV n          => msgSemV L n m
  | .mutexWait n     => msgMutexWait L n m
  | .mutexRelease n  => msgMutexRelease L n m

end Service
