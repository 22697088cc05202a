import Navilnux.Base.Run
import Navilnux.Chap16.Boot
import Navilnux.Heap.Theorems.Malloc

-- The allocation of task stacks and of heap memory in source/chap16. `task_create`, `mem_alloc` and
-- `mem_malloc` are the same as in navilnux/chap16_driver, but there are `maxMemBlk` stacks.
namespace Chap16

open Heap Task

inductive AllocEvent
  | create (startFunc ret stackTop : Word)
  | malloc (size p : Word)

inductive AllocStep (L : Image) : State → AllocEvent → State → Prop
  | create (startFunc : Word) : AllocStep L s
    (.create startFunc (taskCreate L.kernel startFunc s).1 (memAlloc s.memmng).1)
    (taskCreate L.kernel startFunc s).2
  | malloc (fuel : Nat) (size : Word) : (size ≤ maxSize) → (p ≠ 0) →
    (memMalloc fuel size s = some (p, t)) → AllocStep L s (.malloc size p) t

def Image.Low (L : Image) : Prop :=
  ∀ o, L.base o + 4 * o.words ≤ startUsrStackAddr.toNat

theorem navilnuxElf_low : navilnuxElf.Low
  | .kernel g          => by cases g <;> decide
  | .navilnuxIrqVector => by decide
  | .switchPushed      => by decide

variable {L : Image} {α : Type} {bs : Arena α} {s t : State} {m : Memory} {v : Var}
variable {f p size x : Word} {fuel : Nat}

theorem Image.Low.at_toNat (hL : L.Low) : (L.kernel.at v).toNat + 4 ≤ startUsrStackAddr.toNat := by
  have ha : (L.kernel.at v).toNat = _ := Layout.addr_toNat (L := L.kernel.toLayout) v.offset_lt
  have hl := hL (.kernel v.global)
  have := v.offset_lt
  have hb : L.kernel.base v.global = L.base (.kernel v.global) := rfl
  have hw : (Global.kernel v.global).words = v.global.words := rfl
  omega

theorem Image.Low.tcb_toNat (hL : L.Low) (i : Fin maxTaskNum) :
    (L.kernel.tcb (.task i)).toNat + 72 ≤ startUsrStackAddr.toNat := by
  have hi : (i : Nat) < 40 := i.isLt
  have ha : (L.kernel.tcb (.task i)).toNat = L.kernel.base .taskmng + 4 * (18 * i + 0) :=
    Layout.addr_toNat (L := L.kernel.toLayout) (Var.offset_lt (v := .tcb (.task i) 0))
  have hl : L.kernel.base .taskmng + 4 * (18 * 40 + 3) ≤ startUsrStackAddr.toNat :=
    hL (.kernel .taskmng)
  omega

end Chap16
