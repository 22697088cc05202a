import Navilnux.Base.Run
import Navilnux.Chap16.Boot

-- The driver of the switch (source/chap16/my_drv.c) together with the interrupts of the switch.
namespace Chap16

structure MydrvCode where
  gpio0IrqHandler : Word
  ram             : 0xa0000000 ≤ gpio0IrqHandler

def mydrvElf : MydrvCode where
  gpio0IrqHandler := 0xa000d7d8
  ram             := by decide

-- `&navilnux_irq_vector[IRQ8]`
def Image.irq8Vector (L : Image) : Word :=
  L.navilnuxIrqVector + BitVec.ofNat 32 (4 * irq8)

variable (L : Image) (C : MydrvCode)

def mydrvOpen (_drvnum _mode : Word) (m : Memory) : Word × Memory :=
  let m := m.setWord L.irq8Vector C.gpio0IrqHandler
  (0, m.setWord L.switchPushed 0)

def mydrvRead (_drvnum buf _size : Word) (m : Memory) : Word × Option Word × Memory :=
  if m.word L.switchPushed = 1 then
    let v := m.word L.switchPushed
    (4, some v, (m.setWord buf v).setWord L.switchPushed 0)
  else (-2, none, m)

def gpio0Result (icip : Word × Word) (m : Memory) : Option Word :=
  let m := Task.irqHandler L.kernel icip.1 m
  if icip.2 &&& (1 <<< 8) ≠ 0 ∧ m.word L.irq8Vector ≠ 0 then some (gpio0IrqHandler L m).1 else none

inductive MydrvEvent
  | irq (icip : Word × Word) (result : Option Word)
  | openDrv (drvnum mode found ret : Word)
  | readDrv (drvnum buf size ret : Word) (value : Option Word)
  | other

-- Tasks do not pass a buffer that overlaps the vector of interrupt handlers. What else happens does not
-- concern the variables of the driver.
inductive MydrvStep : Memory → MydrvEvent → Memory → Prop
  | irq (icip : Word × Word) : MydrvStep m (.irq icip (gpio0Result L icip m)) (irqHandler L icip m)
  | openDrv (drvnum mode : Word) :
    MydrvStep m (.openDrv drvnum mode (m.word L.switchPushed) (mydrvOpen L C drvnum mode m).1)
      (mydrvOpen L C drvnum mode m).2
  | readDrv (drvnum buf size : Word) : (Memory.Apart buf L.irq8Vector) →
    MydrvStep m (.readDrv drvnum buf size (mydrvRead L drvnum buf size m).1
      (mydrvRead L drvnum buf size m).2.1) (mydrvRead L drvnum buf size m).2.2
  | other : (m₂.word L.switchPushed = m₁.word L.switchPushed) →
    (m₂.word L.irq8Vector = m₁.word L.irq8Vector) → MydrvStep m₁ .other m₂

namespace MydrvEvent

def isPush : MydrvEvent → Bool
  | irq _ (some r) => r = 0
  | _              => false

def isRead : MydrvEvent → Bool
  | readDrv _ _ _ r v => r = 4 ∧ v = some 1
  | _                 => false

def isDiscard : MydrvEvent → Bool
  | openDrv _ _ found _ => found ≠ 0
  | _                   => false

end MydrvEvent

variable {L} {C} {m : Memory} {x : Word} {icip : Word × Word}

theorem switchPushed_apart_irq8Vector : Memory.Apart L.switchPushed L.irq8Vector := by
  have h : L.irq8Vector = L.addr .navilnuxIrqVector (0 + irq8) := Layout.addr_add ..
  rw [h]
  exact Layout.apart (by decide) (by decide) nofun

theorem word_irqHandler_timer {a : Word} (h : ∀ v, Memory.Apart (L.kernel.at v) a) :
    (Task.irqHandler L.kernel x m).word a = m.word a := by
  rw [Task.irqHandler]
  split
  case isFalse => rfl
  case isTrue  =>
    simp only [Task.scheduler, Task.Image.navilnuxCurrent_eq, Task.Image.navilnuxNext_eq,
      Task.Image.navilnuxCurrentIndex_eq, Task.Image.navilnuxTimeTick_eq,
      Memory.word_setWord_of_apart (h _)]

theorem at_apart_switchPushed (v : Task.Var) : Memory.Apart (L.kernel.at v) L.switchPushed := by
  have hv : v.offset < Global.words (.kernel v.global) := v.offset_lt
  exact Layout.apart (L := L.toLayout) hv (by decide) nofun

theorem at_apart_irq8Vector (v : Task.Var) : Memory.Apart (L.kernel.at v) L.irq8Vector := by
  have h : L.irq8Vector = L.addr .navilnuxIrqVector (0 + irq8) := Layout.addr_add ..
  have hv : v.offset < Global.words (.kernel v.global) := v.offset_lt
  rw [h]
  exact Layout.apart (L := L.toLayout) hv (by decide) nofun

theorem word_gpio0IrqHandler : ((gpio0IrqHandler L m).2).word L.irq8Vector = m.word L.irq8Vector := by
  rw [gpio0IrqHandler]
  split
  case isTrue  => rfl
  case isFalse => exact Memory.word_setWord_of_apart switchPushed_apart_irq8Vector

theorem irq8Vector_irqHandler (icip : Word × Word) :
    (irqHandler L icip m).word L.irq8Vector = m.word L.irq8Vector := by
  rw [irqHandler_eq]
  split
  case isTrue  => rw [word_gpio0IrqHandler, word_irqHandler_timer at_apart_irq8Vector]
  case isFalse => exact word_irqHandler_timer at_apart_irq8Vector

theorem switchPushed_irqHandler :
    gpio0Result L icip m = some 0 ∧ m.word L.switchPushed = 0 ∧
      (irqHandler L icip m).word L.switchPushed = 1 ∨
    gpio0Result L icip m ≠ some 0 ∧
      (irqHandler L icip m).word L.switchPushed = m.word L.switchPushed := by
  have hs := word_irqHandler_timer (x := icip.1) (m := m) <| at_apart_switchPushed (L := L)
  rw [irqHandler_eq, ← Image.irq8Vector, gpio0Result, ← hs]
  generalize Task.irqHandler L.kernel icip.1 m = m'
  by_cases hi : icip.2 &&& (1 <<< 8) ≠ 0 ∧ m'.word L.irq8Vector ≠ 0
  case neg =>
    rw [if_neg hi, if_neg hi]
    exact .inr ⟨Option.some_ne_none 0 |>.symm, rfl⟩
  case pos =>
    rw [if_pos hi, if_pos hi, gpio0IrqHandler]
    by_cases hp : m'.word L.switchPushed ≠ 0
    case pos =>
      rw [if_pos hp]
      exact .inr ⟨fun h => absurd (Option.some.inj h) (by decide : (-1 : Word) ≠ 0), rfl⟩
    case neg =>
      rw [if_neg hp]
      exact .inl ⟨rfl, not_not.mp hp, Memory.word_setWord⟩

theorem switchPushed_of_gpio0Result (h : gpio0Result L icip m = some 0) :
    m.word L.switchPushed = 0 ∧ (irqHandler L icip m).word L.switchPushed = 1 :=
  switchPushed_irqHandler.elim And.right fun hn => absurd h hn.left

theorem gpio0Result_eq_zero (hi : icip.2 &&& (1 <<< 8) ≠ 0) (hv : m.word L.irq8Vector ≠ 0)
    (hs : m.word L.switchPushed = 0) : gpio0Result L icip m = some 0 := by
  rw [← word_irqHandler_timer (x := icip.1) <| at_apart_switchPushed] at hs
  rw [← word_irqHandler_timer (x := icip.1) <| at_apart_irq8Vector] at hv
  rw [gpio0Result, if_pos ⟨hi, hv⟩, gpio0IrqHandler, if_neg (not_not_intro hs)]

theorem switchPushed_of_gpio0Result_ne (h : gpio0Result L icip m ≠ some 0) :
    (irqHandler L icip m).word L.switchPushed = m.word L.switchPushed :=
  switchPushed_irqHandler.elim (fun hp => absurd hp.left h) And.right

end Chap16
