import Navilnux.Entry.Boot

namespace Entry

open Arm Task Image

variable {L : Image} {fs : List Word} {s₀ s : Cpu} {es : List (Event Word)}

structure PrivateRegisters (L : Image) (fs : List Word) (s₀ : Cpu) (es : List (Event Word)) (s : Cpu) :
    Prop where
  -- Every task has registers for itself.
  simulated     : ∃ m, Run (Machine.TimedStep fs.length Timer) (.boot L s₀) es m ∧
    Represents L fs.length s m
  -- An interrupt can be taken at this instruction.
  interruptible : control s.cpsr &&& 0x80 = 0
  -- The kernel runs until the first switch, with the TCB `dummyTCB`.
  boot          : Runs L s .dummy ↔ selections es = []
  -- An interrupt saves the registers to the TCB of the running program, and nothing else to a TCB.
  saved         : ∀ {u icip x t}, Runs L s u → KernelStep L s (.irq icip x) t → Saved L u s t
  -- The program continues with the same registers ...
  resumed       : ∀ {u icip x t₁ es' t₂}, Runs L s u → KernelStep L s (.irq icip x) t₁ →
    Run (Away L u) t₁ es' t₂ → Runs L t₂ u → t₂.context = s.context
  -- ... and starts with those of `task_create`.
  started       : ∀ {i : Fin maxTaskNum} {f}, fs[(i : Nat)]? = some f → Run (Away L (.task i)) s₀ es s →
    Runs L s (.task i) →
    s.context = savedContext (L.view s₀.mem) (.task i) ∧ Initialized L s₀.mem i f

namespace Booted

variable {u : Tcb} {icip x : Word} {t t₁ t₂ : Cpu} {es' : List (Event Word)}

theorem runs_dummy_iff (hb : Booted L fs s₀) (hf : fs ≠ []) (hl : fs.length ≤ maxTaskNum)
    (r : Run (KernelStep L) s₀ es s) : Runs L s .dummy ↔ selections es = [] := by
  have ⟨m, r, hm⟩ := hb.run hf hl r
  have hs := Machine.selected r rfl
  rw [hm.runs_dummy_iff (List.length_pos_iff.mpr hf) hl, ← hs.length]
  exact List.length_eq_zero_iff

theorem resumed (hb : Booted L fs s₀) (hf : fs ≠ []) (hl : fs.length ≤ maxTaskNum)
    (r : Run (KernelStep L) s₀ es s) (hu : Runs L s u) (st : KernelStep L s (.irq icip x) t₁)
    (ra : Run (Away L u) t₁ es' t₂) (ht : Runs L t₂ u) : t₂.context = s.context := by
  have hn := List.length_pos_iff.mpr hf
  have ⟨m, _, hm⟩ := hb.run hf hl r
  have ⟨st, hx⟩ := st
  cases st
  case irq k hc hk he =>
    subst he
    have hr := hm.irq_tick hn hl handles_irqHandler hx hk
    rw [hr.resume hn hl handles_irqHandler (ra.mono Away.awayStep) ht, hm.running]
    exact congrArg m.regs (hm.runs_iff hn hl |>.mp hu).symm

end Booted

-- Preemption gives every task its own registers.
theorem preemption (hf : fs ≠ []) (hl : fs.length ≤ maxTaskNum) (hb : Booted L fs s₀)
    (r : Run (KernelStep L) s₀ es s) : PrivateRegisters L fs s₀ es s := by
  constructor
  case simulated     => exact hb.run hf hl r
  case interruptible => exact hb.interruptible hf hl r
  case boot          => exact hb.runs_dummy_iff hf hl r
  case resumed       => exact hb.resumed hf hl r
  case saved =>
    intro u icip x t hu st
    cases st.left
    case irq hc hk he => exact he ▸ irq_saved handles_irqHandler hk hu
  case started =>
    intro i f hi ra hu
    have hn := List.length_pos_iff.mpr hf
    have hr := hb.represents hf hl |>.resume hn hl handles_irqHandler (ra.mono Away.awayStep) hu
    exact ⟨hr, hb.initialized hl hi⟩

theorem preemption_two_tasks : ∃ x₁ x₂ x₃ s t₁ t₂,
    Run (KernelStep navilnuxElf) (bootCpu navilnuxElf [userTask1, userTask1]) [.irq 0x08000000 x₁] s ∧
    KernelStep navilnuxElf s (.irq 0x08000000 x₂) t₁ ∧
    Run (Away navilnuxElf (.task 0)) t₁ [.irq 0x08000000 x₃] t₂ ∧ Runs navilnuxElf t₂ (.task 0) ∧
    t₂.context = s.context := by
  have hf : [userTask1, userTask1] ≠ [] := List.cons_ne_nil _ _
  have hl : [userTask1, userTask1].length ≤ maxTaskNum := by decide
  have hb : Booted navilnuxElf [userTask1, userTask1] (bootCpu navilnuxElf [userTask1, userTask1]) :=
    .bootCpu
  have ht : Timer 0x08000000 := by decide
  have ⟨x₁, s, st₁⟩ := hb.exists_irq hf hl .init ht
  have r₁ := Run.single st₁
  have ⟨x₂, t₁, st₂⟩ := hb.exists_irq hf hl r₁ ht
  have r₂ := r₁.step st₂
  have ⟨x₃, t₂, st₃⟩ := hb.exists_irq hf hl r₂ ht
  have u₁ : Runs navilnuxElf s (.task 0) := hb.runs hf hl r₁
  have u₂ : Runs navilnuxElf t₁ (.task 1) := hb.runs hf hl r₂
  have u₃ : Runs navilnuxElf t₂ (selected 2 3) := hb.runs hf hl <| r₂.step st₃
  have hs : selected 2 3 = .task 0 := by decide
  rw [hs] at u₃
  have hne : navilnuxElf.tcb (.task 1) ≠ navilnuxElf.tcb (.task 0) := by decide
  have ra : Run (Away navilnuxElf (.task 0)) t₁ _ t₂ := .single ⟨st₃, fun h => hne <| u₂.symm.trans h⟩
  exact ⟨x₁, x₂, x₃, s, t₁, t₂, r₁, st₂, ra, u₃, preemption hf hl hb r₁ |>.resumed u₁ st₂ ra u₃⟩

end Entry
