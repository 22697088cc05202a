import Navilnux.Entry.Boot

namespace Entry

open Arm Task Image

variable {L : Image} {fs : List Word} {s₀ s t₁ t₂ : Cpu} {es es' : List (Event Word)} {u : Tcb}
variable {x : Word}

theorem Booted.yielded (hb : Booted L fs s₀) (hf : fs ≠ []) (hl : fs.length ≤ maxTaskNum)
    (r : Run (KernelStep L) s₀ es s) (hu : Runs L s u) (st : KernelStep L s (.yield x) t₁)
    (ra : Run (Away L u) t₁ es' t₂) (ht : Runs L t₂ u) : t₂.context = yielded s.context := by
  have hn := List.length_pos_iff.mpr hf
  have ⟨m, _, hm⟩ := hb.run hf hl r
  have hm' := hm.runs_iff hn hl |>.mp hu
  cases st.left
  case yield k hy hk he =>
    subst he
    have hr := hm.yield hn hl hy hk |>.resume hn hl handles_irqHandler (ra.mono Away.awayStep) ht
    rw [hr, hm.running, hm']
    exact Function.update_self ..

theorem yielded_eq_iff {c : Context} :
    yielded c = { c with pc := c.pc + 4 } ↔ c.r 10 = sysCallSched := by
  constructor
  case mp =>
    intro h
    have hr : (yielded c).r 10 = sysCallSched := rfl
    rwa [h] at hr
  case mpr =>
    intro h
    rw [yielded, ← h, Function.update_eq_self]

-- A yield is transparent to the task exactly if `r10` already had the number of the system call.
theorem yield_transparent_iff (hf : fs ≠ []) (hl : fs.length ≤ maxTaskNum) (hb : Booted L fs s₀)
    (r : Run (KernelStep L) s₀ es s) (hu : Runs L s u) (st : KernelStep L s (.yield x) t₁)
    (ra : Run (Away L u) t₁ es' t₂) (ht : Runs L t₂ u) :
    t₂.context = { s.context with pc := s.pc + 4 } ↔ s.r 10 = sysCallSched := by
  rw [hb.yielded hf hl r hu st ra ht]
  exact yielded_eq_iff

def callScheduler : Word := 0xa000a23c

theorem callScheduler_apart {v : Var} : Memory.Apart callScheduler (navilnuxElf.at v) :=
  text_apart (by decide) Var.offset_lt

def atCallScheduler (s : Cpu) (r : Fin 13 → Word) : Cpu := { s with
  r   := r
  pc  := callScheduler
  mem := s.mem.setWord callScheduler 0xef0000ff
}

theorem atYield_callScheduler {r : Fin 13 → Word} : AtYield navilnuxElf (atCallScheduler s r) where
  swi     := by rw [atCallScheduler, Memory.word_setWord]; decide
  number  := by rw [atCallScheduler, Memory.word_setWord]; decide
  apart i := callScheduler_apart.symm

theorem step_callScheduler {r : Fin 13 → Word} :
    KernelStep navilnuxElf s .compute (atCallScheduler s r) :=
  ⟨.compute rfl fun _ _ => Memory.word_setWord_of_apart callScheduler_apart, trivial⟩

theorem exists_yield (r : Fin 13 → Word) : ∃ (es : List (Event Word)) (s t : Cpu) (x : Word),
    Run (KernelStep navilnuxElf) (bootCpu navilnuxElf [userTask1]) es s ∧ s.r = r ∧
    Runs navilnuxElf s (.task 0) ∧ KernelStep navilnuxElf s (.yield x) t ∧
    Runs navilnuxElf t (.task 0) := by
  have hl : [userTask1].length ≤ maxTaskNum := by decide
  have hb : Booted navilnuxElf [userTask1] _ := .bootCpu
  have ⟨x, s, st⟩ := exists_irq (L := navilnuxElf) (s := bootCpu navilnuxElf [userTask1])
    (by decide : Arm.control 0x53 &&& 0x80 = 0) (by decide : Timer 0x08000000)
  have rs := Run.step (.single st) <| step_callScheduler (r := r)
  have sy : KernelStep navilnuxElf (atCallScheduler s r) _ _ :=
    ⟨.yield default atYield_callScheduler safe_default rfl, trivial⟩
  have hs : Runs navilnuxElf _ (selected 1 1) := hb.runs (by decide) hl rs
  have ht : Runs navilnuxElf _ (selected 1 2) := hb.runs (by decide) hl (rs.step sy)
  exact ⟨_, _, _, _, rs, rfl, hs, sy, ht⟩

theorem yield_transparent_at_255 : ∃ (es : List (Event Word)) (s t : Cpu),
    Run (KernelStep navilnuxElf) (bootCpu navilnuxElf [userTask1]) es s ∧ s.r 10 = 255 ∧
    t.context = { s.context with pc := s.pc + 4 } := by
  have ⟨es, s, t, x, r, hr, hs, sy, ht⟩ := exists_yield fun _ => 255
  have hr := congrFun hr 10
  have hy := yield_transparent_iff (by decide) (by decide) .bootCpu r hs sy .init ht
  exact ⟨es, s, t, r, hr, hy.mpr hr⟩

-- The first task yields with the value 7 in `r10`, and continues with the value 255.
theorem yield_changes_r10 : ∃ (es : List (Event Word)) (s t : Cpu) (x : Word),
    Booted navilnuxElf [userTask1] (bootCpu navilnuxElf [userTask1]) ∧
    Run (KernelStep navilnuxElf) (bootCpu navilnuxElf [userTask1]) es s ∧
    Runs navilnuxElf s (.task 0) ∧ KernelStep navilnuxElf s (.yield x) t ∧
    Runs navilnuxElf t (.task 0) ∧ s.r 10 = 7 ∧ t.r 10 = 255 ∧
    t.context ≠ { s.context with pc := s.pc + 4 } := by
  have ⟨es, s, t, x, r, hr, hs, sy, ht⟩ := exists_yield fun _ => 7
  have hr := congrFun hr 10
  have hc := Booted.bootCpu.yielded (by decide) (by decide) r hs sy .init ht
  have ht' : t.r 10 = 255 := congrFun (congrArg Context.r hc) 10
  refine ⟨es, s, t, x, .bootCpu, r, hs, sy, ht, hr, ht', ?_⟩
  rw [hc]
  refine yielded_eq_iff.not.mpr fun he => ?_
  have he : s.r 10 = 255 := he
  rw [hr] at he
  exact absurd he (by decide)

end Entry
