import Navilnux.Entry.Selections
import Navilnux.Task.Theorems.Create

-- The kernel of navilnux/chap16_driver after `irq_enable`.
namespace Entry

open Arm Task Image

def Timer (icip : Word) : Prop :=
  icip &&& (1 <<< 27) ≠ 0

instance : DecidablePred Timer :=
  fun icip => inferInstanceAs <| Decidable (icip &&& (1 <<< 27) ≠ 0)

variable {L : Image} {fs : List Word} {s t : Cpu} {e : Event Word} {es : List (Event Word)}

theorem handles_irqHandler : Handles L (irqHandler L) Timer where
  tick ht _  := by rw [view_irqHandler]; exact congrFun (if_pos ht) _
  other ht _ := by rw [view_irqHandler]; exact congrFun (if_neg ht) _

-- `os_timer_init` enables only the interrupt of the timer.
def KernelStep (L : Image) (s : Cpu) (e : Event Word) (t : Cpu) : Prop :=
  Step L (irqHandler L) s e t ∧ e.Timed Timer

theorem KernelStep.tame (st : KernelStep L s e t) : TameStep L (irqHandler L) Timer s e t := by
  refine ⟨st.left, fun icip x he => .inl ?_⟩
  have ht := st.right
  rwa [he] at ht

theorem exists_irq {icip : Word} (hc : Arm.control s.cpsr &&& 0x80 = 0) (ht : Timer icip) :
    ∃ x t, KernelStep L s (.irq icip x) t :=
  have ⟨x, t, st⟩ := Step.exists_irq hc
  ⟨x, t, st, ht⟩

namespace KernelStep

variable {icip x : Word} {u : Tcb}

theorem irq_view (st : KernelStep L s (.irq icip x) t) (hu : Runs L s u) :
    L.view t.mem .tick = L.view s.mem .tick + 1 ∧
    ∀ v, L.view t.mem (.tcb v 17) = L.view s.mem (.tcb v 17) := by
  have ⟨st, ht⟩ := st
  cases st
  case irq hc hk he =>
    subst he
    exact ⟨irq_view_tick handles_irqHandler ht hk hu, irq_saved handles_irqHandler hk hu |>.sleep⟩

theorem yield_view (st : KernelStep L s (.yield x) t) (hu : Runs L s u) :
    L.view t.mem .tick = L.view s.mem .tick ∧
    ∀ v, L.view t.mem (.tcb v 17) = L.view s.mem (.tcb v 17) := by
  cases st.left
  case yield hy hk he =>
    subst he
    exact ⟨Entry.yield_view hy hk hu (.inl rfl), fun v => Entry.yield_view hy hk hu (.inr ⟨v, rfl⟩)⟩

theorem compute_view (st : KernelStep L s .compute t) : L.view t.mem .tick = L.view s.mem .tick := by
  cases st.left
  case compute hm => exact hm .tick trivial

end KernelStep

def Away (L : Image) (u : Tcb) (s : Cpu) (e : Event Word) (t : Cpu) : Prop :=
  KernelStep L s e t ∧ ¬Runs L s u

theorem Away.awayStep {u : Tcb} (h : Away L u s e t) : AwayStep L (irqHandler L) Timer u s e t :=
  ⟨h.left.tame, h.right⟩

structure Booted (L : Image) (fs : List Word) (s : Cpu) : Prop where
  memory  : ∃ m, L.Agree Var.Kept (schedInit L (navilnuxUser L fs (navilnuxInit L m)).mem).2 s.mem
  control : Arm.control s.cpsr = 0x40 ||| 0x13

def bootCpu (L : Image) (fs : List Word) : Cpu where
  r _    := 0
  sp _   := 0
  lr _   := 0
  spsr _ := 0
  pc     := 0
  cpsr   := 0x53
  mem    := (schedInit L (navilnuxUser L fs (navilnuxInit L fun _ => 0)).mem).2

namespace Booted

theorem bootCpu : Booted L fs (bootCpu L fs) where
  memory  := ⟨_, fun _ _ => rfl⟩
  control := (by decide : Arm.control 0x53 = 0x40 ||| 0x13)

variable {i : Fin maxTaskNum} {f : Word}

theorem view_eq (hb : Booted L fs s) (hf : fs ≠ []) (hl : fs.length ≤ maxTaskNum) :
    ∃ m, Created L Heap.maxMemBlk fs m ∧
      ∀ v, v.Kept → L.view s.mem v = schedStart L (L.view m.mem) v := by
  have ⟨m, hm⟩ := hb.memory
  have hc := created_navilnuxUser (L := L) (m := m) hl
  refine ⟨_, hc, fun v hv => hm v hv |>.trans ?_⟩
  rw [view_schedInit <| hc.maxTaskId_slt_iff.not.mpr hf]

theorem scheduled (hb : Booted L fs s) (hf : fs ≠ []) (hl : fs.length ≤ maxTaskNum) :
    Scheduled L fs.length 0 (L.view s.mem) := by
  have ⟨_, hc, hv⟩ := hb.view_eq hf hl
  exact Scheduled.start hc.maxTaskId
    |>.congr (hv _ trivial) (hv _ trivial) (hv _ trivial) (hv _ trivial)

theorem represents (hb : Booted L fs s) (hf : fs ≠ []) (hl : fs.length ≤ maxTaskNum) :
    Represents L fs.length s (.boot L s) :=
  .boot <| hb.scheduled hf hl

theorem initialized (hb : Booted L fs s) (hl : fs.length ≤ maxTaskNum)
    (hi : fs[(i : Nat)]? = some f) : Initialized L s.mem i f := by
  have hf : fs ≠ [] := List.ne_nil_of_mem <| List.mem_of_getElem? hi
  have ⟨_, hc, hv⟩ := hb.view_eq hf hl
  have ⟨h₁, h₂, h₃⟩ := hc.initialized hi
  exact ⟨(hv (.tcb _ 0) trivial).trans h₁, (hv (.tcb _ 14) trivial).trans h₂,
    (hv (.tcb _ 16) trivial).trans h₃⟩

theorem sleepEnd (hb : Booted L fs s) (hf : fs ≠ []) (hl : fs.length ≤ maxTaskNum) :
    L.view s.mem (.tcb (.task i) 17) = 0 := by
  have ⟨_, hc, hv⟩ := hb.view_eq hf hl
  exact (hv (.tcb _ 17) trivial).trans <| hc.sleepEnd i

theorem tick (hb : Booted L fs s) (hf : fs ≠ []) (hl : fs.length ≤ maxTaskNum) :
    L.view s.mem .tick = 0 := by
  have ⟨_, hc, hv⟩ := hb.view_eq hf hl
  exact (hv .tick trivial).trans hc.tick

end Booted

theorem kernel_refines (hf : fs ≠ []) (hl : fs.length ≤ maxTaskNum) :
    Simulation (KernelStep L) (Machine.TimedStep fs.length Timer) id (Represents L fs.length) where
  step h st := by
    have ⟨b, hs, hb⟩ := h.step (List.length_pos_iff.mpr hf) hl handles_irqHandler st.tame
    exact ⟨b, ⟨hs, st.right⟩, hb⟩

theorem Booted.run {s₀ : Cpu} (hb : Booted L fs s₀) (hf : fs ≠ []) (hl : fs.length ≤ maxTaskNum)
    (r : Run (KernelStep L) s₀ es s) :
    ∃ m, Run (Machine.TimedStep fs.length Timer) (.boot L s₀) es m ∧ Represents L fs.length s m := by
  have h := kernel_refines hf hl |>.run (hb.represents hf hl) r
  rwa [List.map_id] at h

theorem Booted.runs {s₀ : Cpu} (hb : Booted L fs s₀) (hf : fs ≠ []) (hl : fs.length ≤ maxTaskNum)
    (r : Run (KernelStep L) s₀ es s) : Runs L s (selected fs.length (selections es).length) := by
  have ⟨m, r, hm⟩ := hb.run hf hl r
  rw [hm.runs_iff (List.length_pos_iff.mpr hf) hl, Machine.selected r rfl |>.length, Machine.running]

theorem Booted.interruptible {s₀ : Cpu} (hb : Booted L fs s₀) (hf : fs ≠ [])
    (hl : fs.length ≤ maxTaskNum) (r : Run (KernelStep L) s₀ es s) :
    Arm.control s.cpsr &&& 0x80 = 0 := by
  have hn := List.length_pos_iff.mpr hf
  have ⟨m, r, hm⟩ := hb.run hf hl r
  have hc := Machine.control_psr (u := m.running fs.length) r
  rw [← hm.running] at hc
  have hs : Arm.control s.cpsr = _ := hc
  rw [hs, Machine.running]
  cases m.switches
  case zero   => exact congrArg (· &&& 0x80) hb.control
  case succ k =>
    have hk := Nat.mod_lt k hn
    have hi := hb.initialized (i := ⟨_, Nat.lt_of_lt_of_le hk hl⟩) hl <| List.getElem?_eq_getElem hk
    have hp : ((Machine.boot L s₀).regs (selected fs.length (k + 1))).psr = startUsrCpsr := by
      rw [selected_succ hn hl]
      exact hi.spsr
    rw [hp]
    decide

theorem Booted.exists_irq {s₀ : Cpu} {icip : Word} (hb : Booted L fs s₀) (hf : fs ≠ [])
    (hl : fs.length ≤ maxTaskNum) (r : Run (KernelStep L) s₀ es s) (ht : Timer icip) :
    ∃ x t, KernelStep L s (.irq icip x) t :=
  Entry.exists_irq (hb.interruptible hf hl r) ht

end Entry
