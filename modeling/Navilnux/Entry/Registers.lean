import Navilnux.Entry.Simulation

namespace Entry

open Arm Task Image

variable {ι : Type} {L : Image} {irqHandler : ι → Memory → Memory} {timer : ι → Prop} {n : Nat}
variable {s t : Cpu} {a b : Machine} {e : Event ι} {es : List (Event ι)} {u : Tcb} {i : ι}
variable {k : Clobber}

namespace Machine

def boot (L : Image) (s : Cpu) : Machine where
  switches := 0
  regs     := Function.update (savedContext (L.view s.mem)) .dummy s.context

theorem Step.regs_of_ne (st : Step n timer a e b) (hu : u ≠ a.running n) : b.regs u = a.regs u := by
  cases st
  case compute => exact Function.update_of_ne hu _ _
  case yield   => exact Function.update_of_ne hu _ _
  all_goals rfl

end Machine

def AwayStep (L : Image) (irqHandler : ι → Memory → Memory) (timer : ι → Prop) (u : Tcb) (s : Cpu)
    (e : Event ι) (t : Cpu) : Prop :=
  TameStep L irqHandler timer s e t ∧ ¬Runs L s u

theorem Handles.tcb {m : Memory} {j : Fin NavilFreeTask.words}
    (hi : Handles L irqHandler timer) : L.view (irqHandler i m) (.tcb u j) = L.view m (.tcb u j) := by
  by_cases ht : timer i
  case pos => exact hi.tick (v := .tcb u j) ht trivial
  case neg => exact hi.other ht trivial

structure Saved (L : Image) (u : Tcb) (s t : Cpu) : Prop where
  own    : savedContext (L.view t.mem) u = s.context
  others : ∀ v j, v ≠ u → L.view t.mem (.tcb v j) = L.view s.mem (.tcb v j)
  sleep  : ∀ v, L.view t.mem (.tcb v 17) = L.view s.mem (.tcb v 17)

theorem irq_saved (hi : Handles L irqHandler timer) (hk : Safe L k) (hu : Runs L s u) :
    Saved L u s (run k (navilnuxIrqHandler L (irqHandler i)) s.takeIrq) := by
  have hs := irq_switched (L := L) (k := k) (f := irqHandler i) (s := s)
  have hc : s.mem.word L.navilnuxCurrent = L.tcb u := hu
  have hv v j : L.view (run k (navilnuxIrqHandler L (irqHandler i)) s.takeIrq).mem (.tcb v j) =
      L.view (Context.store s.mem (L.tcb u) s.context) (.tcb v j) := by
    rw [hs.mem, hc]
    exact hk _ (.tcb v j) trivial |>.trans hi.tcb
  constructor
  case own    => exact savedContext_congr (fun j _ => hv u j) |>.trans savedContext_store
  case others =>
    intro v j hne
    exact hv v j |>.trans <| view_store fun _ he => absurd (Var.tcb.inj he).left hne
  case sleep  =>
    intro v
    exact hv v 17 |>.trans <| view_store fun _ he => (Var.tcb.inj he).right.symm

theorem irq_view_tick (hi : Handles L irqHandler timer) (ht : timer i) (hk : Safe L k)
    (hu : Runs L s u) : L.view (run k (navilnuxIrqHandler L (irqHandler i)) s.takeIrq).mem .tick =
    L.view s.mem .tick + 1 := by
  have hs := irq_switched (L := L) (k := k) (f := irqHandler i) (s := s)
  have hc : s.mem.word L.navilnuxCurrent = L.tcb u := hu
  have hv : L.view (Context.store s.mem (L.tcb u) s.context) .tick = L.view s.mem .tick :=
    view_store nofun
  have hx {x : Var → Word} : schedule L x .tick = x .tick := rfl
  rw [hs.mem, hc, hk _ .tick trivial, hi.tick (v := .tick) ht trivial, hx, Function.update_self, hv]

theorem yield_view {v : Var} (hy : AtYield L s) (hk : Safe L k) (hu : Runs L s u)
    (hv : v = .tick ∨ ∃ w, v = .tcb w 17) :
    L.view (navilnuxSwiHandler L k s.takeSwi).mem v = L.view s.mem v := by
  have hs := yield_switched (L := L) (k := k) hy.swiNumber_eq
  have hp := pushed_agree (L := L) (s := s)
  have hc : (pushed s).word L.navilnuxCurrent = L.tcb u := (hp .current trivial).trans hu
  have hkept : v.Kept := by
    rcases hv with rfl | ⟨w, rfl⟩ <;> trivial
  have hx {x : Var → Word} : schedule L x v = x v := by
    rcases hv with rfl | ⟨w, rfl⟩ <;> rfl
  have hst : L.view (Context.store (pushed s) (L.tcb u) (yielded s.context)) v =
      L.view (pushed s) v := by
    refine view_store fun j he => ?_
    rcases hv with rfl | ⟨w, rfl⟩
    · nomatch he
    · exact (Var.tcb.inj he).right.symm
  rw [hs.mem, hc, hk _ v hkept, view_scheduler, hx, hst]
  exact hp v hkept

namespace Represents

theorem boot (h : Scheduled L n 0 (L.view s.mem)) : Represents L n s (.boot L s) where
  scheduled := h
  running   := (Function.update_self Tcb.dummy s.context (savedContext (L.view s.mem))).symm
  saved hu  := (Function.update_of_ne hu _ _).symm

theorem away (h : Represents L n s a) (hn : 0 < n) (hl : n ≤ maxTaskNum)
    (hi : Handles L irqHandler timer) (r : Run (AwayStep L irqHandler timer u) s es t) :
    ∃ b, Represents L n t b ∧ b.regs u = a.regs u := by
  refine r.invariant (P := fun _ t => ∃ b, Represents L n t b ∧ b.regs u = a.regs u) ⟨a, h, rfl⟩ ?_
  intro _ _ _ _ _ ⟨b, hb, hr⟩ e
  have ⟨c, st, hc⟩ := hb.step hn hl hi e.left
  have hu : u ≠ b.running n := fun he => e.right <| hb.runs_iff hn hl |>.mpr he.symm
  exact ⟨c, hc, st.regs_of_ne hu |>.trans hr⟩

theorem resume (h : Represents L n s a) (hn : 0 < n) (hl : n ≤ maxTaskNum)
    (hi : Handles L irqHandler timer) (r : Run (AwayStep L irqHandler timer u) s es t)
    (hu : Runs L t u) : t.context = a.regs u := by
  have ⟨b, hb, hr⟩ := h.away hn hl hi r
  rw [hb.running, hb.runs_iff hn hl |>.mp hu, hr]

end Represents

end Entry
