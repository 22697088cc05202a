import Navilnux.Chap16.Boot
import Navilnux.Entry.Returns

namespace Chap16

open Arm Task Entry

variable {L : Image} {fs : List Word} {s₀ s t : Cpu} {es : List (Event (Word × Word))}

-- A system call of the scheduler does not reach the code in which the two kernels differ.
theorem step_yield {k : Clobber} (hy : AtYield L.kernel s) (hk : Safe L.kernel k) :
    Step L.kernel (irqHandler L) s
      (.yield (L.kernel.view (navilnuxSwiHandler L k s.takeSwi).mem .index))
      (navilnuxSwiHandler L k s.takeSwi) := by
  have hz : (run k swiEntry s.takeSwi).zero = true := by
    rw [run_swiEntry.zero, hy.swiNumber_eq]
    decide
  have he : navilnuxSwiHandler L k s.takeSwi = Entry.navilnuxSwiHandler L.kernel k s.takeSwi := by
    rw [navilnuxSwiHandler, Entry.navilnuxSwiHandler, if_pos hz, if_pos hz]
  exact .yield k hy hk he

-- The kernel knows which task runs exactly if no interrupt of the switch comes before the first
-- interrupt of the timer.
theorem knows_running_iff (hf : fs ≠ []) (hl : fs.length ≤ maxTaskNum) (hb : Booted L fs s₀)
    (r : Run (Step L.kernel (irqHandler L)) s₀ es s) :
    KnowsRunning L.kernel (irqHandler L) Timer fs.length s₀ es s ↔ StartsTimed Timer es :=
  knowsRunning_iff (List.length_pos_iff.mpr hf) hl handles_irqHandler (hb.scheduled hf hl) r

def userTask1 : Word := 0xa000ced0

theorem exists_first_irq (icip : Word × Word) : ∃ x s, Step navilnuxElf.kernel (irqHandler navilnuxElf)
    (bootCpu navilnuxElf [userTask1]) (.irq icip x) s :=
  Step.exists_irq (by decide : Arm.control 0x53 &&& 0x80 = 0)

theorem knows_running_both : ∃ x s,
    KnowsRunning navilnuxElf.kernel (irqHandler navilnuxElf) Timer 1
      (bootCpu navilnuxElf [userTask1]) [.irq (0x08000100, 0x08000100) x] s := by
  have ⟨x, s, st⟩ := exists_first_irq (0x08000100, 0x08000100)
  have ht : (Event.irq (0x08000100, 0x08000100) x).Timed Timer :=
    (by decide : Timer (0x08000100, 0x08000100))
  have h := knows_running_iff (by decide) (by decide) .bootCpu (.single st)
  exact ⟨x, s, h.mpr <| startsTimed_singleton_iff.mpr ht⟩

-- The switch is pushed before the first interrupt of the timer. The processor continues with the first
-- task, while `navilnux_current` is `dummyTCB`.
theorem switch_starts_task : ∃ x s,
    Step navilnuxElf.kernel (irqHandler navilnuxElf) (bootCpu navilnuxElf [userTask1])
      (.irq (0x100, 0x100) x) s ∧
    s.context = savedContext (navilnuxElf.kernel.view s.mem) (.task 0) ∧
    Runs navilnuxElf.kernel s .dummy ∧
    ¬KnowsRunning navilnuxElf.kernel (irqHandler navilnuxElf) Timer 1
      (bootCpu navilnuxElf [userTask1]) [.irq (0x100, 0x100) x] s := by
  have ⟨x, s, st⟩ := exists_first_irq (0x100, 0x100)
  have ht : ¬Timer (0x100, 0x100) := by decide
  have hb : Booted navilnuxElf [userTask1] _ := .bootCpu
  have hs := hb.scheduled (by decide) (by decide)
  have ⟨hd, hc⟩ := Represents.boot hs |>.continues_first (by decide) (by decide) rfl
    handles_irqHandler ht st
  refine ⟨x, s, st, hc, hd, fun h => ?_⟩
  have hk := knowsRunning_iff (by decide) (by decide) handles_irqHandler hs (.single st) |>.mp h
  exact ht <| startsTimed_singleton_iff.mp hk

end Chap16
