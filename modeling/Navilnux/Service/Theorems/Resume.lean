import Navilnux.Service.Theorems.Refines

namespace Service

open Arm Entry Task Task.Image

variable {L : Image} {F : Syscall → Word} {fs : List Word} {n : Nat} {s₀ s₁ s₂ s t : Cpu}
variable {a b : Machine} {e : Event} {es es₀ : List Event} {u : Tcb} {k : Entry.Event Word}

def Away (L : Image) (F : Syscall → Word) (u : Tcb) (s : Cpu) (e : Event) (t : Cpu) : Prop :=
  Step L F s e t ∧ ¬Runs L.kernel s u

-- The registers with which a program goes on after it was interrupted, or called the scheduler.
def resumed : Entry.Event Word → Context → Context
  | .yield _, c => yielded c
  | _,        c => c

theorem Machine.Step.kernel_regs (st : Machine.Step L n a (.kernel k) b) (hk : k ≠ .compute) :
    b.regs (a.running n) = resumed k (a.regs <| a.running n) := by
  cases st
  case kernel st =>
    obtain ⟨st, _⟩ := st
    cases st
    case compute => contradiction
    case yield   => exact Function.update_self ..
    all_goals rfl

namespace Represents

theorem away (h : Represents L F n s a) (hF : Function.Injective F) (hn : 0 < n) (hl : n ≤ maxTaskNum)
    (r : Run (Away L F u) s es t) : ∃ b, Represents L F n t b ∧ b.regs u = a.regs u := by
  refine r.invariant (P := fun _ t => ∃ b, Represents L F n t b ∧ b.regs u = a.regs u) ⟨a, h, rfl⟩ ?_
  intro _ _ _ _ _ ⟨b, hb, hr⟩ st
  have ⟨c, sc, hc⟩ := hb.step hF hn hl st.left
  have hu : u ≠ b.running n := fun he => st.right <| hb.tasks.runs_iff hn hl |>.mpr he.symm
  exact ⟨c, hc, sc.regs_of_ne hu |>.trans hr⟩

end Represents

-- While a task is interrupted or waits for its turn, the other tasks compute, yield and make system calls.
-- The task goes on with the registers that it had.
theorem context_kept (hb : Booted L F fs s₀) (hF : Function.Injective F) (hf : fs ≠ [])
    (hl : fs.length ≤ maxTaskNum) (r₀ : Run (Step L F) s₀ es₀ s₁) (hu : Runs L.kernel s₁ u)
    (st : Step L F s₁ (.kernel k) s₂) (hk : k ≠ .compute) (r : Run (Away L F u) s₂ es s)
    (hs : Runs L.kernel s u) : s.context = resumed k s₁.context := by
  have hn := List.length_pos_iff.mpr hf
  have ⟨a, _, ha⟩ := hb.run hF hf hl r₀
  have ⟨b, sb, hb⟩ := ha.step hF hn hl st
  have ⟨c, hc, hr⟩ := hb.away hF hn hl r
  rw [hc.tasks.running, hc.tasks.runs_iff hn hl |>.mp hs, hr, ha.tasks.running,
    ← sb.kernel_regs hk, ha.tasks.runs_iff hn hl |>.mp hu]

-- The first of two tasks is interrupted. The second one takes the mutex 3 before the first one goes on.
theorem context_kept_first : ∃ s₁ s₂ s x es,
    Step navilnuxElf sysAddress s₁ (.kernel <| .irq 0x08000000 x) s₂ ∧
    Run (Away navilnuxElf sysAddress (.task 0)) s₂ es s ∧ (messages es).length = 1 ∧
    s.context = s₁.context := by
  have hb := booted_twoTasks
  have hf : [userTask1, userTask1] ≠ [] := List.cons_ne_nil _ _
  have hr {s : Cpu} {a : Machine} (h : Represents navilnuxElf sysAddress 2 s a) {k : Nat}
      (hk : a.switches = k) {u : Tcb} : Runs navilnuxElf.kernel s u ↔ selected 2 k = u :=
    hk ▸ h.tasks.runs_iff (by decide) (by decide)
  have irq {es : List Event} {s : Cpu} {a : Machine} (r : Run (Step navilnuxElf sysAddress) twoTasks es s)
      (h : Represents navilnuxElf sysAddress 2 s a) :=
    h.exists_irq sysAddress_injective (by decide) (by decide)
      (hb.interruptible sysAddress_injective hf (by decide) r) (by decide : Timer 0x08000000)
  have ⟨s₁, a₁, st₁, h₁, hs₁, hp₁⟩ := irq .init (hb.represents hf (by decide))
  have r₁ := Run.single st₁
  have ⟨s₂, a₂, st₂, h₂, hs₂, hp₂⟩ := irq r₁ h₁
  have hs₂ : a₂.switches = 2 := hs₂.trans <| congrArg (· + 1) hs₁
  have st₃ := step_before (F := sysAddress) (s := s₂) (f := .sysMutexwait) (r := fun _ => 3)
  have h₃ := represents_before (f := .sysMutexwait) (r := fun _ => 3) h₂
  have ⟨s₄, a₄, st₄, h₄, hs₄, _⟩ := h₃.answered sysAddress_injective (by decide) (by decide)
    atSwi_before (c := .mutexWait 3) rfl nofun
  have r₄ := (r₁.step st₂).step st₃ |>.step st₄
  have ⟨s, a, st, h, hs, _⟩ := irq r₄ h₄
  have hs₄ : a₄.switches = 2 := hs₄.trans hs₂
  have hs : a.switches = 3 := hs.trans <| congrArg (· + 1) hs₄
  have hn : ¬selected 2 2 = .task 0 := by decide
  have r : Run (Away navilnuxElf sysAddress (.task 0)) s₂ _ s := Run.init
    |>.step ⟨st₃, mt (hr h₂ hs₂).mp hn⟩ |>.step ⟨st₄, mt (hr h₃ hs₂).mp hn⟩
    |>.step ⟨st, mt (hr h₄ hs₄).mp hn⟩
  exact ⟨s₁, s₂, s, _, _, st₂, r, rfl, context_kept hb sysAddress_injective hf (by decide) r₁
    (hr h₁ hs₁ |>.mpr (by decide)) st₂ nofun r (hr h hs |>.mpr (by decide))⟩

structure Interruptible (L : Image) (F : Syscall → Word) (n : Nat) (es : List Event) (s : Cpu) :
    Prop where
  mode : s.mode = if selections (kernelEvents es) = [] then .svc else .usr
  irq  : ∀ {icip}, Timer icip → ∃ x t, Step L F s (.kernel <| .irq icip x) t
  next : ∀ {icip x t}, Step L F s (.kernel <| .irq icip x) t →
    Runs L.kernel t (selected n <| (selections <| kernelEvents es).length + 1)

-- No exception and no system call leaves a task in a privileged mode, or with masked interrupts: the timer
-- can always interrupt it, and the next task continues.
theorem always_interruptible (hb : Booted L F fs s₀) (hF : Function.Injective F) (hf : fs ≠ [])
    (hl : fs.length ≤ maxTaskNum) (r : Run (Step L F) s₀ es s) :
    Interruptible L F fs.length es s := by
  have hn := List.length_pos_iff.mpr hf
  constructor
  case mode =>
    rw [Cpu.mode, hb.control_run hF hf hl r]
    split <;> decide
  case irq =>
    intro icip ht
    obtain ⟨a, _, ha⟩ := hb.run hF hf hl r
    obtain ⟨t, _, st, _⟩ := ha.exists_irq hF hn hl (hb.interruptible hF hf hl r) ht
    exact ⟨_, t, st⟩
  case next =>
    intro icip x t st
    obtain ⟨a, ra, ha⟩ := hb.run hF hf hl r
    obtain ⟨b, sb, hb⟩ := ha.step hF hn hl st
    obtain ⟨_, hs, _⟩ := sb.irq_inv
    refine hb.tasks.runs_iff hn hl |>.mpr ?_
    rw [Entry.Machine.running, hs, Machine.selected ra rfl |>.length]

theorem always_interruptible_competition : ∃ s, s.mode = .usr ∧
    Interruptible navilnuxElf sysAddress 2 competition s := by
  have ⟨s, r⟩ := competition_run
  have h := always_interruptible booted_twoTasks sysAddress_injective (List.cons_ne_nil _ _) (by decide) r
  exact ⟨s, h.mode, h⟩

end Service
